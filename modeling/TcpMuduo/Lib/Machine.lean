import Mathlib.Data.List.Basic
import Mathlib.Data.List.Infix

/-!
Machines that read one input at a time, their runs, and the induction rules
over runs. A step may be refused; scheduling choices and results of the outside
world are part of the input, so a run is a list of inputs.
-/

set_option autoImplicit false
set_option relaxedAutoImplicit false

namespace TcpMuduo.Lib

universe u v w x

/-- `step s i = none` says that the input `i` cannot occur in the state `s`. -/
structure Machine (σ : Type u) (ι : Type v) where
  step : σ → ι → Option σ

namespace Machine

variable {σ : Type u} {ι : Type v} {κ : Type w} (M : Machine σ ι)

/-- Feed a list of inputs, oldest first. -/
def exec : σ → List ι → Option σ
  | s, [] => some s
  | s, i :: is => (M.step s i).bind (exec · is)

/-- A run grows at its end, so that an induction over it meets the last step. -/
inductive Run (s₀ : σ) : List ι → σ → Prop
  | nil : Run s₀ [] s₀
  | snoc {is : List ι} {s s' : σ} {i : ι} :
      Run s₀ is s → M.step s i = some s' → Run s₀ (is ++ [i]) s'

/-- Some run leads from `s₀` to `s`. -/
def Reachable (s₀ s : σ) : Prop := ∃ is, M.Run s₀ is s

/-- Every step of the run starts in a state that meets `cond` with its input. -/
def StepsMeet (cond : σ → ι → Prop) (s₀ : σ) (is : List ι) : Prop :=
  ∀ pre i s, pre ++ [i] <+: is → M.Run s₀ pre s → cond s i

/-- Some step of the run has started in a state that has `P` with its input. -/
def Occurred (P : σ → ι → Prop) (s₀ : σ) (is : List ι) : Prop :=
  ∃ pre i s, pre ++ [i] <+: is ∧ M.Run s₀ pre s ∧ P s i

/-- Every state the run passes through, the first and the last included, has `P`. -/
def Throughout (P : List ι → σ → Prop) (s₀ : σ) (is : List ι) : Prop :=
  ∀ pre s, pre <+: is → M.Run s₀ pre s → P pre s

/-- What the steps of a run put out, in their order. -/
def collect (out : σ → ι → List κ) : σ → List ι → List κ
  | _, [] => []
  | s, i :: is => out s i ++ (M.step s i).elim [] (collect out · is)

variable {M}

theorem Run.append {s₀ s s' : σ} {is js : List ι} (h : M.Run s₀ is s) (h' : M.Run s js s') :
    M.Run s₀ (is ++ js) s' := by
  induction h' with
  | nil => simpa using h
  | snoc _ hs ih => simpa [List.append_assoc] using Run.snoc ih hs

theorem Run.cons {s₀ s s' : σ} {i : ι} {is : List ι} (hs : M.step s₀ i = some s)
    (h : M.Run s is s') : M.Run s₀ (i :: is) s' := by
  have first : M.Run s₀ [i] s := by simpa using Run.snoc Run.nil hs
  simpa using first.append h

theorem run_iff_exec {s₀ s : σ} {is : List ι} : M.Run s₀ is s ↔ M.exec s₀ is = some s := by
  constructor
  · intro h
    have step_last : ∀ (js : List ι) (t : σ) (i : ι),
        M.exec t (js ++ [i]) = (M.exec t js).bind (M.step · i) := by
      intro js
      induction js with
      | nil => intro t i; simp [exec]
      | cons j js ih =>
        intro t i
        simp only [List.cons_append, exec]
        cases M.step t j with
        | none => rfl
        | some t' => exact ih t' i
    induction h with
    | nil => rfl
    | snoc _ hs ih => rw [step_last, ih]; exact hs
  · intro h
    induction is generalizing s₀ with
    | nil =>
      have : s₀ = s := by simpa [exec] using h
      exact this ▸ Run.nil
    | cons i is ih =>
      simp only [exec] at h
      cases hs : M.step s₀ i with
      | none => simp [hs] at h
      | some t =>
        rw [hs] at h
        exact Run.cons hs (ih h)

theorem Run.unique {s₀ s s' : σ} {is : List ι} (h : M.Run s₀ is s) (h' : M.Run s₀ is s') :
    s = s' := by
  rw [run_iff_exec] at h h'
  exact Option.some.inj (h.symm.trans h')

theorem run_nil_iff {s₀ s : σ} : M.Run s₀ [] s ↔ s = s₀ := by
  constructor
  · intro h
    exact h.unique Run.nil
  · rintro rfl
    exact Run.nil

theorem run_snoc_iff {s₀ s' : σ} {is : List ι} {i : ι} :
    M.Run s₀ (is ++ [i]) s' ↔ ∃ s, M.Run s₀ is s ∧ M.step s i = some s' := by
  constructor
  · intro h
    generalize he : is ++ [i] = js at h
    cases h with
    | nil => simp at he
    | snoc h hs =>
      obtain ⟨rfl, hi⟩ := List.append_inj' he rfl
      cases hi
      exact ⟨_, h, hs⟩
  · rintro ⟨s, h, hs⟩
    exact h.snoc hs

theorem Run.split {s₀ s : σ} {p is : List ι} (h : M.Run s₀ (p ++ is) s) :
    ∃ m, M.Run s₀ p m ∧ M.Run m is s := by
  induction is using List.reverseRecOn generalizing s with
  | nil => exact ⟨s, by simpa using h, Run.nil⟩
  | append_singleton is i ih =>
    rw [← List.append_assoc, run_snoc_iff] at h
    obtain ⟨t, ht, hs⟩ := h
    obtain ⟨m, hm, hmt⟩ := ih ht
    exact ⟨m, hm, hmt.snoc hs⟩

theorem Run.rest {s₀ m s : σ} {p is : List ι} (h : M.Run s₀ (p ++ is) s)
    (start : M.Run s₀ p m) : M.Run m is s := by
  obtain ⟨m', start', rest⟩ := h.split
  obtain rfl := start.unique start'
  exact rest

theorem Run.step_at {s₀ m s : σ} {p is : List ι} {i : ι} (h : M.Run s₀ (p ++ [i] ++ is) s)
    (start : M.Run s₀ p m) : ∃ m', M.step m i = some m' ∧ M.Run m' is s := by
  obtain ⟨m', first, rest⟩ := h.split
  obtain ⟨t, start', step⟩ := run_snoc_iff.mp first
  obtain rfl := start.unique start'
  exact ⟨m', step, rest⟩

/-- The induction rule for safety: what holds at the start and is kept by every step
from a reachable state holds in every reachable state. -/
theorem Reachable.invariant {I : σ → Prop} {s₀ s : σ} (h : M.Reachable s₀ s)
    (init : I s₀)
    (keep : ∀ s i s', M.Reachable s₀ s → I s → M.step s i = some s' → I s') : I s := by
  obtain ⟨is, hr⟩ := h
  induction hr with
  | nil => exact init
  | snoc hr hs ih => exact keep _ _ _ ⟨_, hr⟩ ih hs

theorem Reachable.refl (s₀ : σ) : M.Reachable s₀ s₀ := ⟨[], Run.nil⟩

theorem Run.reachable {s₀ s : σ} {is : List ι} (h : M.Run s₀ is s) : M.Reachable s₀ s := ⟨is, h⟩

theorem Reachable.step {s₀ s s' : σ} {i : ι} (h : M.Reachable s₀ s)
    (hs : M.step s i = some s') : M.Reachable s₀ s' := by
  obtain ⟨is, hr⟩ := h
  exact ⟨is ++ [i], hr.snoc hs⟩

theorem StepsMeet.before {cond : σ → ι → Prop} {s₀ : σ} {is js : List ι}
    (h : M.StepsMeet cond s₀ js) (hp : is <+: js) : M.StepsMeet cond s₀ is :=
  fun pre i s hpre => h pre i s (hpre.trans hp)

theorem StepsMeet.after {cond : σ → ι → Prop} {s₀ m : σ} {is js : List ι}
    (h : M.StepsMeet cond s₀ (is ++ js)) (hr : M.Run s₀ is m) : M.StepsMeet cond m js := by
  intro pre i s hpre hs
  refine h (is ++ pre) i s ?_ (hr.append hs)
  rw [List.append_assoc]
  exact (List.prefix_append_right_inj is).mpr hpre

theorem StepsMeet.last {cond : σ → ι → Prop} {s₀ s : σ} {is : List ι} {i : ι}
    (h : M.StepsMeet cond s₀ (is ++ [i])) (hr : M.Run s₀ is s) : cond s i :=
  h is i s (List.prefix_refl _) hr

theorem Throughout.before {P : List ι → σ → Prop} {s₀ : σ} {is js : List ι}
    (h : M.Throughout P s₀ js) (hp : is <+: js) : M.Throughout P s₀ is :=
  fun pre s hpre => h pre s (hpre.trans hp)

theorem not_occurred_nil {P : σ → ι → Prop} {s₀ : σ} : ¬ M.Occurred P s₀ [] := by
  rintro ⟨pre, i, s, hpre, -, -⟩
  simp at hpre

theorem Run.occurred_snoc {P : σ → ι → Prop} {s₀ s : σ} {is : List ι} (hr : M.Run s₀ is s)
    (i : ι) : M.Occurred P s₀ (is ++ [i]) ↔ M.Occurred P s₀ is ∨ P s i := by
  constructor
  · rintro ⟨pre, j, t, hpre, ht, hP⟩
    rcases List.prefix_concat_iff.mp hpre with whole | before
    · obtain ⟨rfl, last⟩ := List.append_inj' whole rfl
      cases last
      obtain rfl := hr.unique ht
      exact .inr hP
    · exact .inl ⟨pre, j, t, before, ht, hP⟩
  · rintro (⟨pre, j, t, hpre, ht, hP⟩ | hP)
    · exact ⟨pre, j, t, hpre.trans (List.prefix_append _ _), ht, hP⟩
    · exact ⟨is, i, s, List.prefix_refl _, hr, hP⟩

theorem Occurred.imp {P Q : σ → ι → Prop} {s₀ : σ} {is : List ι} (h : M.Occurred P s₀ is)
    (implies : ∀ s i, P s i → Q s i) : M.Occurred Q s₀ is := by
  obtain ⟨pre, i, s, prior, hr, hP⟩ := h
  exact ⟨pre, i, s, prior, hr, implies s i hP⟩

theorem Occurred.longer {P : σ → ι → Prop} {s₀ : σ} {is : List ι} (h : M.Occurred P s₀ is)
    (js : List ι) : M.Occurred P s₀ (is ++ js) := by
  obtain ⟨pre, i, s, prior, hr, hP⟩ := h
  exact ⟨pre, i, s, prior.trans (List.prefix_append _ _), hr, hP⟩

theorem Run.occurred_append {P : σ → ι → Prop} {s₀ s : σ} {is js : List ι} (hr : M.Run s₀ is s)
    (occurred : M.Occurred P s js) : M.Occurred P s₀ (is ++ js) := by
  obtain ⟨pre, i, t, prior, ht, hP⟩ := occurred
  refine ⟨is ++ pre, i, t, ?_, hr.append ht, hP⟩
  rw [List.append_assoc]
  exact (List.prefix_append_right_inj _).mpr prior

theorem Run.collect_snoc {s₀ s : σ} {is : List ι} (hr : M.Run s₀ is s) (out : σ → ι → List κ)
    (i : ι) : M.collect out s₀ (is ++ [i]) = M.collect out s₀ is ++ out s i := by
  rw [run_iff_exec] at hr
  induction is generalizing s₀ with
  | nil =>
    obtain rfl := Option.some.inj hr
    cases h : M.step s₀ i <;> simp [collect, h]
  | cons j js ih =>
    obtain ⟨t, step, rest⟩ := Option.bind_eq_some_iff.mp hr
    simp only [List.cons_append, collect, step, Option.elim_some, ih rest, List.append_assoc]

theorem Run.collect_append {s₀ s : σ} {is : List ι} (hr : M.Run s₀ is s)
    (out : σ → ι → List κ) (js : List ι) :
    M.collect out s₀ (is ++ js) = M.collect out s₀ is ++ M.collect out s js := by
  rw [run_iff_exec] at hr
  induction is generalizing s₀ with
  | nil =>
    obtain rfl := Option.some.inj hr
    rfl
  | cons i is ih =>
    obtain ⟨t, step, rest⟩ := Option.bind_eq_some_iff.mp hr
    simp only [List.cons_append, collect, step, Option.elim_some, ih rest, List.append_assoc]

theorem collect_flatten (out : σ → ι → List (List κ)) (s : σ) (is : List ι) :
    (M.collect out s is).flatten = M.collect (fun s i => (out s i).flatten) s is := by
  induction is generalizing s with
  | nil => rfl
  | cons i is ih =>
    simp only [collect, List.flatten_append]
    cases M.step s i with
    | none => rfl
    | some s' => exact congrArg _ (ih s')

theorem collect_sublist {out out' : σ → ι → List κ}
    (less : ∀ s i, (out s i).Sublist (out' s i)) (s : σ) (is : List ι) :
    (M.collect out s is).Sublist (M.collect out' s is) := by
  induction is generalizing s with
  | nil => exact List.Sublist.refl _
  | cons i is ih =>
    simp only [collect]
    refine (less s i).append ?_
    cases M.step s i with
    | none => exact List.Sublist.refl _
    | some s' => exact ih s'

theorem occurred_of_mem_collect {out : σ → ι → List κ} {x : κ} {s₀ : σ} {is : List ι}
    (mem : x ∈ M.collect out s₀ is) : M.Occurred (fun s i => x ∈ out s i) s₀ is := by
  induction is generalizing s₀ with
  | nil => cases mem
  | cons i is ih =>
    rcases List.mem_append.mp mem with here | later
    · exact ⟨[], i, s₀, ⟨is, rfl⟩, .nil, here⟩
    · cases hs : M.step s₀ i with
      | none =>
        rw [hs] at later
        cases later
      | some s =>
        rw [hs] at later
        exact Run.occurred_append (.snoc .nil hs) (ih later)

theorem Run.stepsMeet_snoc {cond : σ → ι → Prop} {s₀ s : σ} {is : List ι} (hr : M.Run s₀ is s)
    (i : ι) : M.StepsMeet cond s₀ (is ++ [i]) ↔ M.StepsMeet cond s₀ is ∧ cond s i := by
  constructor
  · intro meets
    exact ⟨meets.before (List.prefix_append _ _), meets.last hr⟩
  · rintro ⟨meets, last⟩ pre j t hpre ht
    rcases List.prefix_concat_iff.mp hpre with whole | before
    · obtain ⟨rfl, same⟩ := List.append_inj' whole rfl
      cases same
      obtain rfl := hr.unique ht
      exact last
    · exact meets pre j t before ht

/-- What puts out less at every step puts out as much in a run only if it does at every step. -/
theorem Run.collect_eq_iff {out out' : σ → ι → List κ}
    (less : ∀ s i, (out s i).Sublist (out' s i)) {s₀ s : σ} {is : List ι} (hr : M.Run s₀ is s) :
    M.collect out s₀ is = M.collect out' s₀ is ↔
      M.StepsMeet (fun s i => out s i = out' s i) s₀ is := by
  induction hr with
  | nil => exact iff_of_true rfl fun pre i s hpre => by simp at hpre
  | @snoc is s s' i hr hs ih =>
    rw [hr.collect_snoc, hr.collect_snoc, hr.stepsMeet_snoc, ← ih]
    constructor
    · intro same
      have before := (collect_sublist (M := M) less s₀ is).length_le
      have last := (less s i).length_le
      have sizes := congrArg List.length same
      rw [List.length_append, List.length_append] at sizes
      exact List.append_inj same (by omega)
    · rintro ⟨before, last⟩
      rw [before, last]

/-- The induction rule for runs whose steps all meet a condition. -/
theorem Run.invariant_of_stepsMeet {cond : σ → ι → Prop} {I : List ι → σ → Prop} {s₀ s : σ}
    {is : List ι} (h : M.Run s₀ is s) (meets : M.StepsMeet cond s₀ is) (init : I [] s₀)
    (keep : ∀ is s i s', M.Run s₀ is s → I is s → cond s i → M.step s i = some s' →
      I (is ++ [i]) s') : I is s := by
  induction h with
  | nil => exact init
  | snoc hr hs ih =>
    exact keep _ _ _ _ hr (ih (meets.before (List.prefix_append _ _))) (meets.last hr) hs

/-- To see that all steps of a run meet `cond`, look at each with what comes before and after. -/
theorem Run.stepsMeet {cond : σ → ι → Prop} {s₀ s : σ} {is : List ι} (hr : M.Run s₀ is s)
    (need : ∀ pre t i t' post, is = pre ++ [i] ++ post → M.Run s₀ pre t →
      M.step t i = some t' → M.Run t' post s → cond t i) : M.StepsMeet cond s₀ is := by
  rintro pre i t ⟨post, rfl⟩ ht
  obtain ⟨t', hs, rest⟩ := hr.step_at ht
  exact need pre t i t' post rfl ht hs rest

theorem throughout_of_stepsMeet {P : σ → Prop} {s₀ : σ} {is : List ι}
    (meets : M.StepsMeet (fun s _ => P s) s₀ is) (last : ∀ s, M.Run s₀ is s → P s) :
    M.Throughout (fun _ s => P s) s₀ is := by
  rintro pre s ⟨post, rfl⟩ hr
  cases post with
  | nil => exact last s (by simpa using hr)
  | cons i post => exact meets pre i s ⟨post, by simp⟩ hr

theorem Throughout.stepsMeet {cond : σ → ι → Prop} {P : List ι → σ → Prop} {s₀ s : σ}
    {is : List ι} (all : M.Throughout P s₀ is) (hr : M.Run s₀ is s)
    (need : ∀ pre t i t', pre ++ [i] <+: is → M.Run s₀ pre t → M.step t i = some t' →
      P (pre ++ [i]) t' → cond t i) : M.StepsMeet cond s₀ is := by
  refine hr.stepsMeet ?_
  intro pre t i t' post split ht hs _
  have hpre : pre ++ [i] <+: is := ⟨post, split.symm⟩
  exact need pre t i t' hpre ht hs (all _ _ hpre (ht.snoc hs))

/-- A property that fails right after the first step breaking `cond`, and holds otherwise,
holds throughout exactly the runs whose steps all meet `cond`. -/
theorem throughout_iff_stepsMeet {cond : σ → ι → Prop} {P : List ι → σ → Prop} {s₀ s : σ}
    {is : List ι} (hr : M.Run s₀ is s) (init : P [] s₀)
    (keep : ∀ is s i s', M.Run s₀ is s → P is s → M.step s i = some s' →
      (P (is ++ [i]) s' ↔ cond s i)) :
    M.Throughout P s₀ is ↔ M.StepsMeet cond s₀ is := by
  constructor
  · intro all
    refine all.stepsMeet hr ?_
    intro pre t i t' hpre ht hs after
    have before : P pre t := all pre t ((List.prefix_append pre [i]).trans hpre) ht
    exact (keep pre t i t' ht before hs).mp after
  · intro meets pre t hpre ht
    refine ht.invariant_of_stepsMeet (I := P) (meets.before hpre) init ?_
    intro js s i s' hjs hP hc hs
    exact (keep js s i s' hjs hP hs).mpr hc

theorem exists_run (M : Machine σ ι) (s₀ : σ) (is : List ι) (P : σ → Prop) [DecidablePred P]
    (h : (M.exec s₀ is).any (decide <| P ·) = true) : ∃ s, M.Run s₀ is s ∧ P s := by
  obtain ⟨s, hs, hP⟩ := (Option.any_eq_true _ _).mp h
  exact ⟨s, run_iff_exec.mpr hs, of_decide_eq_true hP⟩

/-- A test that every step of a concrete run passes. -/
def checks (M : Machine σ ι) (cond : σ → ι → Bool) : σ → List ι → Bool
  | _, [] => true
  | s, i :: is => cond s i && (M.step s i).all (M.checks cond · is)

theorem stepsMeet_of_checks {cond : σ → ι → Prop} [∀ s i, Decidable (cond s i)] {s₀ : σ}
    {is : List ι} (h : M.checks (fun s i => decide (cond s i)) s₀ is = true) :
    M.StepsMeet cond s₀ is := by
  induction is generalizing s₀ with
  | nil =>
    intro pre i s hpre
    simp at hpre
  | cons j js ih =>
    rw [checks, Bool.and_eq_true, decide_eq_true_eq] at h
    intro pre i s hpre hr
    cases pre with
    | nil =>
      obtain ⟨rfl, -⟩ := List.cons_prefix_cons.mp hpre
      exact run_nil_iff.mp hr ▸ h.1
    | cons k pre =>
      obtain ⟨rfl, left⟩ := List.cons_prefix_cons.mp hpre
      obtain ⟨t, first, rest⟩ := Run.split (p := [k]) hr
      obtain ⟨t', ht', step⟩ := run_snoc_iff.mp (show M.Run s₀ ([] ++ [k]) t from first)
      obtain rfl := run_nil_iff.mp ht'
      have passed := h.2
      rw [step] at passed
      exact ih passed pre i s left rest

end Machine

section Simulation

variable {σ : Type u} {ι : Type v} {τ : Type w} {κ : Type x} {C : Machine σ ι} {A : Machine τ κ}
variable {abs : σ → τ}

/-- A forward simulation with stuttering: a step of `C` leaves the abstraction as it is or is a
step of `A` on some input. -/
def Simulation (C : Machine σ ι) (A : Machine τ κ) (abs : σ → τ) : Prop :=
  ∀ s i s', C.step s i = some s' → abs s' = abs s ∨ ∃ k, A.step (abs s) k = some (abs s')

theorem Simulation.keep {I : τ → Prop} (sim : Simulation C A abs)
    (keep : ∀ a k a', I a → A.step a k = some a' → I a') {s s' : σ} {i : ι} (inv : I (abs s))
    (hs : C.step s i = some s') : I (abs s') := by
  rcases sim s i s' hs with same | ⟨k, step⟩
  · rw [same]
    exact inv
  · exact keep _ k _ inv step

/-- A run of `C` is, abstracted, a run of `A` on the inputs that the steps of `C` put out. -/
theorem Machine.Run.project {out : σ → ι → List κ}
    (sim : ∀ s i s', C.step s i = some s' → A.Run (abs s) (out s i) (abs s')) {s₀ s : σ}
    {is : List ι} (h : C.Run s₀ is s) : A.Run (abs s₀) (C.collect out s₀ is) (abs s) := by
  induction h with
  | nil => exact .nil
  | snoc hr hs ih =>
    rw [hr.collect_snoc]
    exact ih.append (sim _ _ _ hs)

theorem Machine.Run.occurred_project {out : σ → ι → List κ} {P : σ → ι → Prop} {Q : τ → κ → Prop}
    (sim : ∀ s i s', C.step s i = some s' → A.Run (abs s) (out s i) (abs s'))
    (each : ∀ s i s', C.step s i = some s' → P s i → A.Occurred Q (abs s) (out s i)) {s₀ s : σ}
    {is : List ι} (h : C.Run s₀ is s) (occurred : C.Occurred P s₀ is) :
    A.Occurred Q (abs s₀) (C.collect out s₀ is) := by
  obtain ⟨pre, i, t, ⟨post, rfl⟩, ht, hP⟩ := occurred
  obtain ⟨t', hs, -⟩ := h.step_at ht
  obtain ⟨pre', k, a, prior, ha, hQ⟩ := each t i t' hs hP
  refine ⟨C.collect out s₀ pre ++ pre', k, a, ?_, (ht.project sim).append ha, hQ⟩
  rw [(ht.snoc hs).collect_append, ht.collect_snoc, List.append_assoc, List.append_assoc]
  exact (List.prefix_append_right_inj _).mpr (prior.trans (List.prefix_append _ _))

theorem Simulation.reachable (sim : Simulation C A abs) {s₀ s : σ} (h : C.Reachable s₀ s) :
    A.Reachable (abs s₀) (abs s) := by
  refine h.invariant (I := fun s => A.Reachable (abs s₀) (abs s)) (.refl _) ?_
  intro s i s' _ reach hs
  exact sim.keep (fun _ _ _ reach step => reach.step step) reach hs

end Simulation

end TcpMuduo.Lib
