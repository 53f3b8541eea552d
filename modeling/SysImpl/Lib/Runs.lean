import Mathlib.Logic.Basic

/-! Runs of a system given by a step relation, and the rule for invariants. -/

namespace SysImpl.Runs

variable {σ ι : Type}

/-- The inputs of a run in order, from its first state to its last. -/
inductive Run (step : σ → ι → σ → Prop) : σ → List ι → σ → Prop
  | nil (s : σ) : Run step s [] s
  | snoc {s mid last : σ} {inputs : List ι} {input : ι} (earlier : Run step s inputs mid)
      (taken : step mid input last) : Run step s (inputs ++ [input]) last

variable {step : σ → ι → σ → Prop}

theorem Run.cons {s mid last : σ} {inputs : List ι} {input : ι} (taken : step s input mid)
    (later : Run step mid inputs last) : Run step s (input :: inputs) last := by
  induction later with
  | nil => exact Run.snoc (Run.nil s) taken
  | snoc _ next ih => exact Run.snoc ih next

theorem Run.append {s mid last : σ} {first second : List ι} (earlier : Run step s first mid)
    (later : Run step mid second last) : Run step s (first ++ second) last := by
  induction later with
  | nil => rwa [List.append_nil]
  | snoc _ next ih =>
      rw [← List.append_assoc]
      exact Run.snoc ih next

theorem Run.mono {wider : σ → ι → σ → Prop} {s last : σ} {inputs : List ι}
    (run : Run step s inputs last)
    (allowed : ∀ mid input next, step mid input next → wider mid input next) :
    Run wider s inputs last := by
  induction run with
  | nil => exact Run.nil s
  | snoc _ taken ih => exact Run.snoc ih (allowed _ _ _ taken)

def RunOf (step : σ → ι → σ → Prop) (kind : ι → Prop) (s last : σ) : Prop :=
  ∃ inputs, Run step s inputs last ∧ ∀ input ∈ inputs, kind input

variable {kind : ι → Prop}

theorem RunOf.refl (s : σ) : RunOf step kind s s :=
  ⟨[], Run.nil s, by intro input member; cases member⟩

theorem RunOf.single {s last : σ} {input : ι} (taken : step s input last) (fits : kind input) :
    RunOf step kind s last := by
  refine ⟨[input], Run.cons taken (Run.nil last), ?_⟩
  intro other member
  rw [List.mem_singleton.mp member]
  exact fits

theorem RunOf.trans {s mid last : σ} (first : RunOf step kind s mid)
    (second : RunOf step kind mid last) : RunOf step kind s last := by
  obtain ⟨inputs, run, fit⟩ := first
  obtain ⟨others, later, fit'⟩ := second
  refine ⟨inputs ++ others, run.append later, ?_⟩
  intro input member
  rcases List.mem_append.mp member with member | member
  · exact fit input member
  · exact fit' input member

theorem RunOf.cons {s mid last : σ} {input : ι} (taken : step s input mid) (fits : kind input)
    (later : RunOf step kind mid last) : RunOf step kind s last :=
  (RunOf.single taken fits).trans later

theorem RunOf.mono {kind' : ι → Prop} {s last : σ} (run : RunOf step kind s last)
    (wider : ∀ input, kind input → kind' input) : RunOf step kind' s last := by
  obtain ⟨inputs, run, fit⟩ := run
  exact ⟨inputs, run, fun input member => wider input (fit input member)⟩

/-- What every step preserves holds at the end of every run. -/
theorem Run.invariant (inv : σ → Prop) {s last : σ} {inputs : List ι}
    (run : Run step s inputs last)
    (initial : inv s)
    (preserved : ∀ mid input next, input ∈ inputs → inv mid → step mid input next → inv next) :
    inv last := by
  induction run with
  | nil => exact initial
  | snoc earlier taken ih =>
      apply preserved _ _ _ (by simp) _ taken
      apply ih
      intro mid input next member
      exact preserved mid input next (by simp [member])

/-- What a clock shows after a run, when every step takes its time off a potential, to which
only some inputs add. -/
theorem Run.amortized (inv : σ → Prop) (clock potential : σ → Nat) (costly : ι → Bool)
    (credit : Nat) {s last : σ} {inputs : List ι} (run : Run step s inputs last) (initial : inv s)
    (paid : ∀ mid input next, inv mid → step mid input next → inv next ∧
      clock next + potential next ≤ clock mid + potential mid + bif costly input then credit else 0) :
    inv last ∧ clock last + potential last ≤
      clock s + potential s + credit * inputs.countP costly := by
  induction run with
  | nil => exact ⟨initial, Nat.le_refl _⟩
  | @snoc _ _ inputs input _ taken ih =>
      obtain ⟨before, bound⟩ := ih
      obtain ⟨after, cost⟩ := paid _ _ _ before taken
      refine ⟨after, ?_⟩
      have counted : credit * (inputs ++ [input]).countP costly =
          credit * inputs.countP costly + bif costly input then credit else 0 := by
        rw [List.countP_append, Nat.mul_add, List.countP_singleton]
        cases costly input with
        | false => rfl
        | true => rw [if_pos rfl, Nat.mul_one, cond_true]
      omega

/-- A view under which every step is a step of another system maps runs to its runs. -/
theorem Run.simulate {τ : Type} {abstract : τ → ι → τ → Prop} (view : σ → τ) {s last : σ}
    {inputs : List ι} (run : Run step s inputs last)
    (simulates : ∀ mid input next, step mid input next → abstract (view mid) input (view next)) :
    Run abstract (view s) inputs (view last) := by
  induction run with
  | nil => exact Run.nil _
  | snoc _ taken ih => exact Run.snoc ih (simulates _ _ _ taken)

theorem RunOf.invariant (inv : σ → Prop) {s last : σ} (run : RunOf step kind s last)
    (initial : inv s)
    (preserved : ∀ mid input next, kind input → inv mid → step mid input next → inv next) :
    inv last := by
  obtain ⟨inputs, run, fit⟩ := run
  apply run.invariant inv initial
  intro mid input next member
  exact preserved mid input next (fit input member)

theorem Run.of_foldlM (next : σ → ι → Option σ)
    (sound : ∀ s input s', next s input = some s' → step s input s') {s last : σ}
    {inputs : List ι} (folded : inputs.foldlM next s = some last) : Run step s inputs last := by
  induction inputs generalizing s with
  | nil =>
      rw [List.foldlM_nil] at folded
      rw [← Option.some.inj folded]
      exact Run.nil s
  | cons input rest ih =>
      rw [List.foldlM_cons] at folded
      obtain ⟨mid, taken, later⟩ := Option.bind_eq_some_iff.mp folded
      exact Run.cons (sound s input mid taken) (ih later)

end SysImpl.Runs
