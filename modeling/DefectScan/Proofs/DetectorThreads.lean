import DefectScan.Engine
import Mathlib.Data.List.Range

/-!
# Detectors side by side

Detectors that run side by side are threads. They are started one after another, each ends at a time
of its own, and only when all were started are they waited for, again one after another
(`Step`). A run is any interleaving of these moves. However a run goes,

    joined results, collected  =  detectors.flatMap (contribution text)

and a run never gets stuck before the last thread was waited for (`exists_step`), nor does it go on
for more than three moves for each detector (`length_of_run`). Every order in which the threads may
end is that of some run (`exists_run_of_perm`). So a parallel engine gives what `analyze?` says, which
is what a sequential one gives as long as no detector breaks down (`runs_agree_with_analyze`).
-/

namespace DefectScan.Engine

/-! ## Threads -/

/-- What waiting for a thread gives. -/
def threadResult : Outcome → Except DetectError (List Finding)
  | .found fs => .ok fs
  | .failed e => .error e
  | .brokeDown => .error (.other "detector panicked")

/-- The threads that were started, each with its outcome once it has ended, and the results of those
that were waited for, with the names of their detectors. -/
structure Scope where
  threads : List (Option Outcome) := []
  joined : List (String × Except DetectError (List Finding)) := []

inductive Move
  | start
  /-- The thread of a number ends. -/
  | finish (i : Nat)
  | join

/-- What can happen next. Threads end in any order, but they are waited for in the order of their
detectors, and not before all of them were started. -/
inductive Step (detectors : List Detector) (text : String) : Scope → Move → Scope → Prop
  | start {s : Scope} (h : s.threads.length < detectors.length) :
      Step detectors text s .start { s with threads := s.threads ++ [none] }
  | finish {s : Scope} {i : Nat} {d : Detector} (hd : detectors[i]? = some d)
      (h : s.threads[i]? = some none) :
      Step detectors text s (.finish i)
        { s with threads := s.threads.set i (some (d.detect text)) }
  | join {s : Scope} {d : Detector} {o : Outcome} (hall : s.threads.length = detectors.length)
      (hd : detectors[s.joined.length]? = some d)
      (h : s.threads[s.joined.length]? = some (some o)) :
      Step detectors text s .join { s with joined := s.joined ++ [(d.name, threadResult o)] }

/-- A run of moves. -/
inductive Run (detectors : List Detector) (text : String) : Scope → List Move → Scope → Prop
  | nil (s : Scope) : Run detectors text s [] s
  | cons {s s' s'' : Scope} {m : Move} {ms : List Move} (h : Step detectors text s m s')
      (rest : Run detectors text s' ms s'') : Run detectors text s (m :: ms) s''

/-- The order in which threads end. -/
def finishing (ms : List Move) : List Nat :=
  ms.filterMap fun
    | .finish i => some i
    | _ => none

/-- The findings of the results that were joined. -/
def collect (joined : List (String × Except DetectError (List Finding))) : List Finding :=
  joined.flatMap fun
    | (_, .ok fs) => fs
    | (name, .error e) => [failure name e]

/-- What a detector adds to the findings: its own, or one finding on its failure. -/
def contribution (text : String) (d : Detector) : List Finding :=
  let report (reason : String) : Finding :=
    { category := .syntaxError, line := 0, description := d.name ++ " detector failed: " ++ reason
      severity := .high, confidence := none, detector := .engine }
  match d.detect text with
  | .found fs => fs
  | .failed e => [report e.message]
  | .brokeDown => [report "detector panicked"]

variable {detectors : List Detector} {text : String}

/-! ## What a move keeps -/

/-- The number of moves that led to a scope. -/
def Scope.moves (s : Scope) : Nat :=
  s.threads.length + s.threads.countP (·.isSome) + s.joined.length

/-- How a scope stands: the outcomes are those of the detectors, and the results are those of the
first detectors. -/
structure Scope.Valid (detectors : List Detector) (text : String) (s : Scope) : Prop where
  started : s.threads.length ≤ detectors.length
  outcome : ∀ (i : Nat) (d : Detector) (o : Outcome), detectors[i]? = some d →
    s.threads[i]? = some (some o) → o = d.detect text
  joined : s.joined = (detectors.take s.joined.length).map fun d =>
    (d.name, threadResult (d.detect text))

theorem Scope.valid_empty : Scope.Valid detectors text {} where
  started := Nat.zero_le _
  outcome := by
    intro i d o _ h
    cases h
  joined := rfl

theorem Scope.Valid.length_joined {s : Scope} (h : s.Valid detectors text) :
    s.joined.length ≤ detectors.length := by
  have hlength := congrArg List.length h.joined
  rw [List.length_map, List.length_take] at hlength
  omega

theorem Step.valid {s s' : Scope} {m : Move} (h : Step detectors text s m s')
    (hs : s.Valid detectors text) : s'.Valid detectors text := by
  obtain ⟨hstarted, houtcome, hjoined⟩ := hs
  cases h with
  | start hlt =>
    refine ⟨?_, ?_, hjoined⟩
    · rw [List.length_append]
      exact hlt
    · intro i d o hd hi
      -- the new thread is still running
      by_cases hold : i < s.threads.length
      · rw [List.getElem?_append_left hold] at hi
        exact houtcome i d o hd hi
      · rw [List.getElem?_append_right (by omega)] at hi
        have := List.mem_of_getElem? hi
        simp at this
  | @finish j d' hd' hj =>
    refine ⟨?_, ?_, hjoined⟩
    · rw [List.length_set]
      exact hstarted
    · intro i d o hd hi
      by_cases hij : j = i
      · subst hij
        have hlt := (List.getElem?_eq_some_iff.mp hj).1
        rw [List.getElem?_set_self hlt] at hi
        rw [hd'] at hd
        cases hd
        cases hi
        rfl
      · rw [List.getElem?_set_ne hij] at hi
        exact houtcome i d o hd hi
  | @join d o hall hd hi =>
    refine ⟨hstarted, houtcome, ?_⟩
    have ho : o = d.detect text := houtcome _ d o hd hi
    rw [List.length_append, List.length_singleton, List.take_add_one, hd, List.map_append, ← hjoined,
      ho]
    rfl

theorem countP_set_of_running {ts : List (Option Outcome)} {i : Nat} (o : Outcome)
    (h : ts[i]? = some none) :
    (ts.set i (some o)).countP (·.isSome) = ts.countP (·.isSome) + 1 := by
  obtain ⟨hlt, hi⟩ := List.getElem?_eq_some_iff.mp h
  rw [List.countP_set hlt, hi]
  simp

theorem Step.moves {s s' : Scope} {m : Move} (h : Step detectors text s m s') :
    s'.moves = s.moves + 1 := by
  unfold Scope.moves
  cases h with
  | start hlt =>
    simp only [List.length_append, List.countP_append, List.length_singleton,
      List.countP_singleton, Option.isSome_none]
    simp
    omega
  | finish hd hi =>
    simp only [List.length_set, countP_set_of_running _ hi]
    omega
  | join hall hd hi =>
    simp only [List.length_append, List.length_singleton]
    omega

/-- As long as a thread was not waited for, something can happen: it is started, or it ends, or it is
waited for. -/
theorem Scope.Valid.exists_step {s : Scope} (h : s.Valid detectors text)
    (hlt : s.joined.length < detectors.length) : ∃ m s', Step detectors text s m s' := by
  by_cases hall : s.threads.length = detectors.length
  · have hd := List.getElem?_eq_getElem hlt
    have hthread := List.getElem?_eq_getElem (hall ▸ hlt)
    cases ho : s.threads[s.joined.length] with
    | none => exact ⟨_, _, .finish hd (by rw [hthread, ho])⟩
    | some o => exact ⟨_, _, .join hall hd (by rw [hthread, ho])⟩
  · have := h.started
    exact ⟨_, _, .start (by omega)⟩

/-! ## What a run keeps -/

theorem Run.valid {s s' : Scope} {ms : List Move} (h : Run detectors text s ms s')
    (hs : s.Valid detectors text) : s'.Valid detectors text := by
  induction h with
  | nil => exact hs
  | cons hstep _ ih => exact ih (hstep.valid hs)

theorem Run.moves {s s' : Scope} {ms : List Move} (h : Run detectors text s ms s') :
    s'.moves = s.moves + ms.length := by
  induction h with
  | nil => rfl
  | cons hstep _ ih =>
    rw [ih, hstep.moves, List.length_cons]
    omega

theorem Run.append {s s' s'' : Scope} {ms ms' : List Move} (h : Run detectors text s ms s')
    (h' : Run detectors text s' ms' s'') : Run detectors text s (ms ++ ms') s'' := by
  induction h with
  | nil => exact h'
  | cons hstep _ ih => exact .cons hstep (ih h')

/-- A run ends after at most three moves for each detector. -/
theorem length_of_run {s : Scope} {ms : List Move} (h : Run detectors text {} ms s) :
    ms.length ≤ 3 * detectors.length := by
  have hmoves := h.moves
  have hvalid := h.valid Scope.valid_empty
  have hstarted := hvalid.started
  have hjoined := hvalid.length_joined
  have hended : s.threads.countP (·.isSome) ≤ s.threads.length := List.countP_le_length
  change s.threads.length + s.threads.countP (·.isSome) + s.joined.length = 0 + 0 + 0 + ms.length
    at hmoves
  omega

/-! ## Every order of ending -/

variable (detectors text)

theorem exists_run_starts {k : Nat} (h : k ≤ detectors.length) :
    ∃ ms, Run detectors text {} ms ⟨List.replicate k none, []⟩ ∧ finishing ms = [] := by
  induction k with
  | zero => exact ⟨[], .nil _, rfl⟩
  | succ k ih =>
    obtain ⟨ms, hrun, hnone⟩ := ih (by omega)
    have hstep : Step detectors text ⟨List.replicate k none, []⟩ .start
        ⟨List.replicate k none ++ [none], []⟩ := by
      apply Step.start
      rw [List.length_replicate]
      omega
    refine ⟨ms ++ [.start], ?_, ?_⟩
    · rw [List.replicate_succ']
      exact hrun.append (.cons hstep (.nil _))
    · rw [finishing, List.filterMap_append, ← finishing, hnone]
      rfl

theorem exists_run_finishes {order : List Nat} (hnodup : order.Nodup) {ts : List (Option Outcome)}
    (hlength : ts.length = detectors.length) (hrunning : ∀ i ∈ order, ts[i]? = some none) :
    ∃ ts', Run detectors text ⟨ts, []⟩ (order.map .finish) ⟨ts', []⟩ ∧
      ts'.length = detectors.length ∧ (∀ i ∈ order, ∃ o, ts'[i]? = some (some o)) ∧
      ∀ i, i ∉ order → ts'[i]? = ts[i]? := by
  induction order generalizing ts with
  | nil => exact ⟨ts, .nil _, hlength, by simp, fun _ _ => rfl⟩
  | cons j order ih =>
    obtain ⟨hj, hnodup⟩ := List.nodup_cons.mp hnodup
    have hrun := hrunning j List.mem_cons_self
    have hlt : j < ts.length := (List.getElem?_eq_some_iff.mp hrun).1
    have hd := List.getElem?_eq_getElem (hlength ▸ hlt)
    have hset : (ts.set j (some (detectors[j].detect text))).length = detectors.length := by
      rw [List.length_set, hlength]
    obtain ⟨ts', hrest, hlength', hended, hother⟩ := ih hnodup hset (by
      intro i hi
      rw [List.getElem?_set_ne (by rintro rfl; exact hj hi)]
      exact hrunning i (List.mem_cons_of_mem j hi))
    refine ⟨ts', .cons (.finish hd hrun) hrest, hlength', ?_, ?_⟩
    · intro i hi
      rcases List.mem_cons.mp hi with rfl | hi
      · exact ⟨_, by rw [hother i hj, List.getElem?_set_self hlt]⟩
      · exact hended i hi
    · intro i hi
      rw [List.mem_cons, not_or] at hi
      rw [hother i hi.2, List.getElem?_set_ne (Ne.symm hi.1)]

theorem exists_run_joins {ts : List (Option Outcome)} (hlength : ts.length = detectors.length)
    (hended : ∀ i < detectors.length, ∃ o, ts[i]? = some (some o)) {k : Nat}
    (hk : k ≤ detectors.length) :
    ∃ ms s, Run detectors text ⟨ts, []⟩ ms s ∧ s.threads = ts ∧ s.joined.length = k ∧
      finishing ms = [] := by
  induction k with
  | zero => exact ⟨[], _, .nil _, rfl, rfl, rfl⟩
  | succ k ih =>
    obtain ⟨ms, s, hrun, hts, hjoined, hnone⟩ := ih (by omega)
    obtain ⟨o, ho⟩ := hended k (by omega)
    have hd : detectors[s.joined.length]? = some detectors[k] := by
      rw [hjoined]
      exact List.getElem?_eq_getElem _
    have hstep : Step detectors text s .join
        { s with joined := s.joined ++ [(detectors[k].name, threadResult o)] } :=
      .join (by rw [hts, hlength]) hd (by rw [hts, hjoined, ho])
    refine ⟨ms ++ [.join], { s with joined := s.joined ++ [(detectors[k].name, threadResult o)] },
      hrun.append (.cons hstep (.nil _)), hts, ?_, ?_⟩
    · rw [List.length_append, hjoined]
      rfl
    · rw [finishing, List.filterMap_append, ← finishing, hnone]
      rfl

/-- The threads may end in any order. -/
theorem exists_run_of_perm {order : List Nat} (h : order.Perm (List.range detectors.length)) :
    ∃ ms s, Run detectors text {} ms s ∧ finishing ms = order ∧
      s.joined.length = detectors.length := by
  obtain ⟨ms₁, hstarts, hnone₁⟩ := exists_run_starts detectors text (Nat.le_refl _)
  obtain ⟨ts, hfinishes, hlength, hended, -⟩ := exists_run_finishes detectors text
    (h.nodup_iff.mpr List.nodup_range) List.length_replicate (by
      intro i hi
      have hlt := List.mem_range.mp (h.mem_iff.mp hi)
      rw [List.getElem?_replicate, if_pos hlt])
  obtain ⟨ms₂, s, hjoins, -, hjoined, hnone₂⟩ := exists_run_joins detectors text hlength (by
    intro i hi
    exact hended i (h.mem_iff.mpr (List.mem_range.mpr hi))) (Nat.le_refl detectors.length)
  refine ⟨ms₁ ++ (order.map .finish ++ ms₂), s, hstarts.append (hfinishes.append hjoins), ?_, hjoined⟩
  have horder : finishing (order.map .finish) = order := by
    rw [finishing, List.filterMap_map]
    exact List.filterMap_some
  unfold finishing at *
  rw [List.filterMap_append, List.filterMap_append, hnone₁, hnone₂, horder, List.nil_append,
    List.append_nil]

variable {detectors text}

/-! ## What is collected -/

theorem collect_results (text : String) (ds : List Detector) :
    collect (ds.map fun d => (d.name, threadResult (d.detect text)))
      = ds.flatMap (contribution text) := by
  unfold collect
  rw [List.flatMap_map]
  apply List.flatMap_congr
  intro d _
  unfold contribution
  cases d.detect text <;> rfl

theorem findings?_eq_contribution {parallel : Bool} {d : Detector}
    (h : parallel = true ∨ d.detect text ≠ .brokeDown) :
    findings? parallel d text = some (contribution text d) := by
  unfold findings? contribution
  cases hd : d.detect text with
  | found fs => rfl
  | failed e => rfl
  | brokeDown =>
    rcases h with rfl | h
    · rfl
    · exact absurd hd h

theorem mapM_eq_some {α β : Type} {f : α → Option β} {g : α → β} {xs : List α}
    (h : ∀ x ∈ xs, f x = some (g x)) : xs.mapM f = some (xs.map g) := by
  induction xs with
  | nil => rfl
  | cons x xs ih =>
    rw [List.mapM_cons, h x List.mem_cons_self, ih fun y hy => h y (List.mem_cons_of_mem _ hy)]
    rfl

theorem analyze?_eq_contributions {e : Engine}
    (h : e.parallel = true ∨ ∀ d ∈ e.detectors, d.detect text ≠ .brokeDown) :
    e.analyze? text = some (e.detectors.flatMap (contribution text)) := by
  unfold analyze?
  rw [mapM_eq_some (g := contribution text)]
  · rfl
  · intro d hd
    apply findings?_eq_contribution
    exact h.imp_right fun hno => hno d hd

/-! ## Main result -/

/-- However the threads of the detectors are interleaved, the run ends, and it ends with every thread
waited for and with the findings that `analyze?` gives: those of each detector in turn, and one
finding in place of those of a detector that failed or broke down. Every order in which the threads
can end does occur. Where no detector breaks down, running them in sequence gives the same. -/
theorem runs_agree_with_analyze (detectors : List Detector) (text : String) :
    (∀ ms s, Run detectors text {} ms s → ms.length ≤ 3 * detectors.length ∧
      ((¬ ∃ m s', Step detectors text s m s') → s.joined.length = detectors.length) ∧
      (s.joined.length = detectors.length →
        collect s.joined = detectors.flatMap (contribution text))) ∧
    (∀ order, order.Perm (List.range detectors.length) → ∃ ms s, Run detectors text {} ms s ∧
      finishing ms = order ∧ s.joined.length = detectors.length) ∧
    analyze? ⟨detectors, true⟩ text = some (detectors.flatMap (contribution text)) ∧
    ((∀ d ∈ detectors, d.detect text ≠ .brokeDown) →
      analyze? ⟨detectors, false⟩ text = analyze? ⟨detectors, true⟩ text) := by
  have hparallel : analyze? ⟨detectors, true⟩ text = some (detectors.flatMap (contribution text)) :=
    analyze?_eq_contributions (Or.inl rfl)
  refine ⟨?_, fun order h => exists_run_of_perm detectors text h, hparallel, ?_⟩
  · intro ms s hrun
    have hvalid := hrun.valid Scope.valid_empty
    refine ⟨length_of_run hrun, ?_, ?_⟩
    · intro hstuck
      have hle := hvalid.length_joined
      have hnot : ¬ s.joined.length < detectors.length := fun hlt => hstuck (hvalid.exists_step hlt)
      omega
    · intro hall
      rw [hvalid.joined, hall, List.take_length]
      exact collect_results text detectors
  · intro hno
    rw [hparallel]
    exact analyze?_eq_contributions (Or.inr hno)

/-- The last of three detectors breaks down and its thread ends first, the second fails. Without the
last one, running them in sequence gives the same. -/
theorem runs_agree_with_analyze_breakdown :
    let leak : Finding := .atLine .memoryLeak 1 "lost" .lexical
    let sound : List Detector :=
      [⟨"lexical", fun _ => .found [leak]⟩, ⟨"structural", fun _ => .failed .noTree⟩]
    let all := sound ++ [⟨"classifier", fun _ => .brokeDown⟩]
    (∃ ms s, Run all "" {} ms s ∧ finishing ms = [2, 0, 1] ∧
      (collect s.joined).map (·.description) = ["lost",
        "structural detector failed: parser returned no tree",
        "classifier detector failed: detector panicked"]) ∧
    analyze? ⟨all, false⟩ "" = none ∧
    analyze? ⟨sound, false⟩ "" = analyze? ⟨sound, true⟩ "" := by
  intro leak sound all
  obtain ⟨hruns, hevery, -, -⟩ := runs_agree_with_analyze all ""
  obtain ⟨-, -, -, hsame⟩ := runs_agree_with_analyze sound ""
  obtain ⟨ms, s, hrun, horder, hall⟩ := hevery [2, 0, 1] (by decide)
  refine ⟨⟨ms, s, hrun, horder, ?_⟩, rfl, ?_⟩
  · rw [(hruns ms s hrun).2.2 hall]
    rfl
  · apply hsame
    intro d hd
    simp only [sound, List.mem_cons, List.not_mem_nil, or_false] at hd
    rcases hd with rfl | rfl <;> simp

end DefectScan.Engine
