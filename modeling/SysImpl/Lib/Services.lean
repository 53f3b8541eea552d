import Mathlib.Logic.Basic

/-! Components that answer calls, and programs that make them.

A service that follows another one gives the same replies, so that no program can tell which
of the two it runs over. -/

namespace SysImpl.Services

variable {κ ρ ε σ τ α β : Type}

/-- A call is answered in a state and leaves another one, or it fails. -/
abbrev Service (κ ρ ε σ : Type) := κ → σ → Except ε (ρ × σ)

/-- A program that makes calls and goes on with the replies. -/
inductive Client (κ ρ α : Type) where
  | done (value : α)
  | call (request : κ) (next : ρ → Client κ ρ α)

namespace Client

def run (service : Service κ ρ ε σ) : Client κ ρ α → σ → Except ε (α × σ)
  | .done value, s => .ok (value, s)
  | .call request next, s =>
      match service request s with
      | .error fault => .error fault
      | .ok (reply, s) => (next reply).run service s

def bind : Client κ ρ α → (α → Client κ ρ β) → Client κ ρ β
  | .done value, follow => follow value
  | .call request next, follow => .call request fun reply => (next reply).bind follow

def map (f : α → β) (client : Client κ ρ α) : Client κ ρ β :=
  client.bind fun value => .done (f value)

def Asks (legal : κ → Prop) : Client κ ρ α → Prop
  | .done _ => True
  | .call request next => legal request ∧ ∀ reply, (next reply).Asks legal

variable {service : Service κ ρ ε σ} {s s' : σ} {client : Client κ ρ α} {legal : κ → Prop}

theorem run_bind {value : α} (done : client.run service s = .ok (value, s'))
    (follow : α → Client κ ρ β) :
    (client.bind follow).run service s = (follow value).run service s' := by
  induction client generalizing s with
  | done =>
      simp only [run, Except.ok.injEq, Prod.mk.injEq] at done
      obtain ⟨rfl, rfl⟩ := done
      rfl
  | call request next ih =>
      simp only [run] at done
      simp only [bind, run]
      cases replied : service request s with
      | error fault =>
          rw [replied] at done
          cases done
      | ok answer =>
          rw [replied] at done
          exact ih answer.1 done

theorem run_map {value : α} (done : client.run service s = .ok (value, s')) (f : α → β) :
    (client.map f).run service s = .ok (f value, s') :=
  run_bind done _

theorem Asks.bind {follow : α → Client κ ρ β} (first : client.Asks legal)
    (later : ∀ value, (follow value).Asks legal) : (client.bind follow).Asks legal := by
  induction client with
  | done value => exact later value
  | call request next ih => exact ⟨first.1, fun reply => ih reply (first.2 reply)⟩

theorem Asks.map (asks : client.Asks legal) (f : α → β) : (client.map f).Asks legal :=
  asks.bind fun _ => trivial

end Client

/-- In related states, the first service answers every legal call as the second one does. -/
def Follows (legal : κ → Prop) (rel : σ → τ → Prop) (concrete : Service κ ρ ε σ)
    (abstract : Service κ ρ ε τ) : Prop :=
  ∀ request s t reply t', legal request → rel s t → abstract request t = .ok (reply, t') →
    ∃ s', concrete request s = .ok (reply, s') ∧ rel s' t'

/-- A program that makes legal calls only has the same result over both services. -/
theorem Follows.run {legal : κ → Prop} {rel : σ → τ → Prop} {concrete : Service κ ρ ε σ}
    {abstract : Service κ ρ ε τ} (follows : Follows legal rel concrete abstract)
    {client : Client κ ρ α} (asks : client.Asks legal) {s : σ} {t t' : τ} {value : α}
    (related : rel s t) (done : client.run abstract t = .ok (value, t')) :
    ∃ s', client.run concrete s = .ok (value, s') ∧ rel s' t' := by
  induction client generalizing s t with
  | done =>
      simp only [Client.run, Except.ok.injEq, Prod.mk.injEq] at done
      obtain ⟨rfl, rfl⟩ := done
      exact ⟨s, rfl, related⟩
  | call request next ih =>
      simp only [Client.run] at done
      cases replied : abstract request t with
      | error fault =>
          rw [replied] at done
          cases done
      | ok answer =>
          rw [replied] at done
          obtain ⟨mid, same, still⟩ := follows request s t answer.1 answer.2 asks.1 related replied
          obtain ⟨last, rest, ends⟩ := ih answer.1 (asks.2 answer.1) still done
          refine ⟨last, ?_, ends⟩
          rw [Client.run, same]
          exact rest

def traced (service : Service κ ρ ε σ) : Service κ ρ ε (σ × List (κ × ρ)) := fun request s =>
  match service request s.1 with
  | .error fault => .error fault
  | .ok (reply, after) => .ok (reply, (after, s.2 ++ [(request, reply)]))

theorem run_traced {service : Service κ ρ ε σ} {client : Client κ ρ α} {s s' : σ} {value : α}
    (done : client.run service s = .ok (value, s')) (trace : List (κ × ρ)) :
    ∃ trace', client.run (traced service) (s, trace) = .ok (value, (s', trace')) := by
  induction client generalizing s trace with
  | done =>
      simp only [Client.run, Except.ok.injEq, Prod.mk.injEq] at done
      obtain ⟨rfl, rfl⟩ := done
      exact ⟨trace, rfl⟩
  | call request next ih =>
      simp only [Client.run] at done
      cases replied : service request s with
      | error fault =>
          rw [replied] at done
          cases done
      | ok answer =>
          rw [replied] at done
          obtain ⟨trace', later⟩ := ih answer.1 done (trace ++ [(request, answer.1)])
          refine ⟨trace', ?_⟩
          simp only [Client.run, traced, replied]
          exact later

def SameTrace (rel : σ → τ → Prop) (s : σ × List (κ × ρ)) (t : τ × List (κ × ρ)) : Prop :=
  rel s.1 t.1 ∧ s.2 = t.2

theorem Follows.traced {legal : κ → Prop} {rel : σ → τ → Prop} {concrete : Service κ ρ ε σ}
    {abstract : Service κ ρ ε τ} (follows : Follows legal rel concrete abstract) :
    Follows legal (SameTrace rel) (traced concrete) (traced abstract) := by
  intro request s t reply t' allowed related answered
  simp only [Services.traced] at answered
  cases replied : abstract request t.1 with
  | error fault =>
      rw [replied] at answered
      cases answered
  | ok answer =>
      rw [replied] at answered
      simp only [Except.ok.injEq, Prod.mk.injEq] at answered
      obtain ⟨rfl, rfl⟩ := answered
      obtain ⟨after, same, still⟩ :=
        follows request s.1 t.1 answer.1 answer.2 allowed related.1 replied
      refine ⟨(after, s.2 ++ [(request, answer.1)]), ?_, still, by rw [related.2]⟩
      simp only [Services.traced, same]

/-- What every call preserves, every program preserves. -/
theorem Client.run_invariant (inv : σ → Prop) {service : Service κ ρ ε σ}
    {client : Client κ ρ α} {s s' : σ} {value : α} (initial : inv s)
    (preserved : ∀ request s reply s', inv s → service request s = .ok (reply, s') → inv s')
    (done : client.run service s = .ok (value, s')) : inv s' := by
  induction client generalizing s with
  | done =>
      simp only [Client.run, Except.ok.injEq, Prod.mk.injEq] at done
      rwa [← done.2]
  | call request next ih =>
      simp only [Client.run] at done
      cases replied : service request s with
      | error fault =>
          rw [replied] at done
          cases done
      | ok answer =>
          rw [replied] at done
          exact ih answer.1 (preserved request s answer.1 answer.2 initial replied) done

end SysImpl.Services
