import DefectScan.Learning.Classifier
import DefectScan.Proofs.FittedModel
import DefectScan.Proofs.ModelText

/-!
# Runs of a classifier

A classifier is trained, loaded, saved and asked in any order, over a store of models that anybody
may write to and that may fail. The model that it holds after a run is the one that was made last,
and what made it is known without the classifier: a corpus that was fitted, or bytes that the store
held at that time (`Event.made?`).

    (run s ops).classifier.model = ((history s ops).filterMap made?).getLast?

What failed made nothing and left the classifier as it was (`classifier_step`). Both ways to a model
give a sound one, so at any time the model that is held judges every text by all of its units
(`run_model_last_made`).
-/

namespace DefectScan.Learning.Classifier

/-! ## Runs -/

/-- What can be asked of a classifier and of the store beside it. -/
inductive Operation
  | train (examples : List Example) (now : Timestamp)
  | load (key : String)
  | save (key : String)
  | predict (text : String)
  /-- Writes to the store past the classifier. -/
  | write (key : String) (content : ByteArray)

inductive Answer
  | trained (summary : TrainingSummary)
  | loaded
  | saved
  | predicted (found : List Finding)
  | written
  | failed (e : Error)

/-- A classifier and what its store keeps. -/
structure State (σ : Type) where
  classifier : Classifier
  kept : σ

variable {σ : Type} (store : ModelStore (StateM σ))

/-- One operation, over any store. -/
def step (s : State σ) : Operation → State σ × Answer
  | .train examples now =>
    match s.classifier.train examples now with
    | .ok (c, summary) => (⟨c, s.kept⟩, .trained summary)
    | .error e => (s, .failed e)
  | .load key =>
    match (s.classifier.load store key).run s.kept with
    | (.ok c, kept) => (⟨c, kept⟩, .loaded)
    | (.error e, kept) => (⟨s.classifier, kept⟩, .failed e)
  | .save key =>
    match (s.classifier.save store key).run s.kept with
    | (.ok _, kept) => (⟨s.classifier, kept⟩, .saved)
    | (.error e, kept) => (⟨s.classifier, kept⟩, .failed e)
  | .predict text => (s, .predicted (s.classifier.predict text))
  | .write key content =>
    match (store.write key content).run s.kept with
    | (.ok _, kept) => (⟨s.classifier, kept⟩, .written)
    | (.error e, kept) => (⟨s.classifier, kept⟩, .failed (.file e))

def run (s : State σ) : List Operation → State σ
  | [] => s
  | op :: ops => run (step store s op).1 ops

/-- An operation in a run, with the states around it. -/
structure Event (σ : Type) where
  before : State σ
  operation : Operation
  answer : Answer
  after : State σ

def history (s : State σ) : List Operation → List (Event σ)
  | [] => []
  | op :: ops => ⟨s, op, (step store s op).2, (step store s op).1⟩ :: history (step store s op).1 ops

/-! ## What an operation makes -/

/-- The model that a text under a key holds. -/
def kept? (key : String) (kept : σ) : Option Model :=
  match ((store.read key).run kept).1 with
  | .ok (some bytes) => (Model.ofBytes bytes).toOption
  | _ => none

/-- The model that an operation makes, from the settings and what the store keeps. -/
def Operation.made? (settings : ClassifierSettings) (kept : σ) : Operation → Option Model
  | .train examples now => (Model.fit examples settings now).toOption
  | .load key => kept? store key kept
  | .save _ | .predict _ | .write _ _ => none

def Event.made? (settings : ClassifierSettings) (e : Event σ) : Option Model :=
  e.operation.made? store settings e.before.kept

/-- Whether an operation was a training or a loading that succeeded. -/
def Event.Renewed (e : Event σ) : Prop :=
  match e.operation, e.answer with
  | .train _ _, .trained _ => True
  | .load _, .loaded => True
  | _, _ => False

def Event.Failed (e : Event σ) : Prop :=
  match e.answer with
  | .failed _ => True
  | _ => False

theorem run_load (c : Classifier) (key : String) (kept : σ) :
    (c.load store key).run kept =
      match (store.read key).run kept with
      | (.ok (some bytes), kept) => (c.restore bytes, kept)
      | (.ok none, kept) => (.error (.modelNotFound key), kept)
      | (.error e, kept) => (.error (.file e), kept) := by
  rw [load, StateT.run_bind]
  rcases (store.read key).run kept with ⟨_ | _ | bytes, kept⟩ <;> rfl

theorem Event.Renewed.not_failed {e : Event σ} (h : e.Renewed) : ¬ e.Failed := by
  obtain ⟨before, operation, answer, after⟩ := e
  cases answer with
  | failed e => cases operation <;> exact fun _ => h
  | _ => exact id

/-- All that a step does to the classifier: it takes the model that was made, if one was made, and
one was made exactly by a training or a loading that succeeded. -/
theorem classifier_step (s : State σ) (op : Operation) :
    (step store s op).1.classifier = ⟨s.classifier.settings,
        (op.made? store s.classifier.settings s.kept).or s.classifier.model⟩ ∧
      ((op.made? store s.classifier.settings s.kept).isSome = true ↔
        (⟨s, op, (step store s op).2, (step store s op).1⟩ : Event σ).Renewed) := by
  cases op with
  | train examples now =>
    simp only [step, train, Operation.made?, Event.Renewed]
    cases Model.fit examples s.classifier.settings now with
    | error e => exact ⟨rfl, by simp [bind, Except.bind, Except.toOption]⟩
    | ok m => exact ⟨rfl, by simp [bind, Except.bind, Except.toOption, pure, Except.pure]⟩
  | load key =>
    simp only [step, run_load, Operation.made?, Event.Renewed, kept?]
    rcases (store.read key).run s.kept with ⟨_ | _ | bytes, kept⟩
    · exact ⟨rfl, by simp⟩
    · exact ⟨rfl, by simp⟩
    · simp only [restore]
      cases Model.ofBytes bytes with
      | error e => exact ⟨rfl, by simp [bind, Except.bind, Except.toOption]⟩
      | ok m => exact ⟨rfl, by simp [bind, Except.bind, Except.toOption, pure, Except.pure]⟩
  | save key =>
    simp only [step, Operation.made?, Event.Renewed]
    rcases (s.classifier.save store key).run s.kept with ⟨_ | _, kept⟩ <;> exact ⟨rfl, by simp⟩
  | predict text => exact ⟨rfl, by simp [Operation.made?, Event.Renewed]⟩
  | write key content =>
    simp only [step, Operation.made?, Event.Renewed]
    rcases (store.write key content).run s.kept with ⟨_ | _, kept⟩ <;> exact ⟨rfl, by simp⟩

/-- What makes a model: a corpus that is fitted, or bytes that are read. -/
theorem Operation.made?_cases {settings : ClassifierSettings} {kept : σ} {op : Operation} {m : Model}
    (h : op.made? store settings kept = some m) :
    (∃ examples now, op = .train examples now ∧ Model.fit examples settings now = .ok m) ∨
      ∃ key bytes, op = .load key ∧ ((store.read key).run kept).1 = .ok (some bytes) ∧
        Model.ofBytes bytes = .ok m := by
  cases op with
  | train examples now =>
    simp only [made?] at h
    cases hfit : Model.fit examples settings now with
    | error e =>
      rw [hfit] at h
      cases h
    | ok m' =>
      rw [hfit] at h
      cases h
      exact Or.inl ⟨examples, now, rfl, hfit⟩
  | load key =>
    simp only [made?, kept?] at h
    split at h
    · next bytes hread =>
      cases hbytes : Model.ofBytes bytes with
      | error e =>
        rw [hbytes] at h
        cases h
      | ok m' =>
        rw [hbytes] at h
        cases h
        exact Or.inr ⟨key, bytes, rfl, hread, hbytes⟩
    · cases h
  | save key => cases h
  | predict text => cases h
  | write key content => cases h

theorem Operation.made?_sound {settings : ClassifierSettings} {kept : σ} {op : Operation} {m : Model}
    (h : op.made? store settings kept = some m) : m.Sound := by
  rcases made?_cases store h with ⟨examples, now, -, hfit⟩ | ⟨key, bytes, -, -, hbytes⟩
  · exact Model.fit_sound hfit
  · exact Model.ofBytes_sound hbytes

/-! ## What a run makes -/

theorem mem_history {s : State σ} {ops : List Operation} {e : Event σ}
    (h : e ∈ history store s ops) :
    e = ⟨e.before, e.operation, (step store e.before e.operation).2,
        (step store e.before e.operation).1⟩ ∧
      e.before.classifier.settings = s.classifier.settings := by
  induction ops generalizing s with
  | nil => cases h
  | cons op ops ih =>
    rw [history] at h
    rcases List.mem_cons.mp h with rfl | h
    · exact ⟨rfl, rfl⟩
    · obtain ⟨he, hsettings⟩ := ih h
      rw [(classifier_step store s op).1] at hsettings
      exact ⟨he, hsettings⟩

/-- The model after a run is the last that was made, or the one from before the run. -/
theorem classifier_run (s : State σ) (ops : List Operation) :
    (run store s ops).classifier = ⟨s.classifier.settings,
      ((history store s ops).filterMap (·.made? store s.classifier.settings)).getLast?.or
        s.classifier.model⟩ := by
  induction ops generalizing s with
  | nil => rfl
  | cons op ops ih =>
    rw [run, ih, (classifier_step store s op).1, history, List.filterMap_cons]
    simp only [Event.made?]
    cases op.made? store s.classifier.settings s.kept with
    | none => rfl
    | some m =>
      simp only [List.getLast?_cons]
      cases ((history store (step store s op).1 ops).filterMap
        fun e => e.operation.made? store s.classifier.settings e.before.kept).getLast? <;> rfl

/-- An event renews the classifier exactly if it makes a model, and without one the classifier
stays. -/
theorem Event.classifier_of_mem {s : State σ} {ops : List Operation} {e : Event σ}
    (h : e ∈ history store s ops) :
    ((e.made? store s.classifier.settings).isSome = true ↔ e.Renewed) ∧
      (e.Failed → e.after.classifier = e.before.classifier) := by
  obtain ⟨he, hsettings⟩ := mem_history store h
  obtain ⟨hafter, hrenewed⟩ := classifier_step store e.before e.operation
  rw [hsettings] at hafter hrenewed
  rw [← he] at hrenewed
  refine ⟨hrenewed, fun hfailed => ?_⟩
  have hnone : e.operation.made? store s.classifier.settings e.before.kept = none := by
    cases hmade : e.operation.made? store s.classifier.settings e.before.kept with
    | none => rfl
    | some m =>
      have hyes : e.Renewed := hrenewed.mp (by rw [hmade]; rfl)
      exact absurd hfailed hyes.not_failed
  rw [hnone, ← hsettings] at hafter
  rw [he]
  exact hafter

/-! ## What a sound model predicts -/

theorem predict_of_sound {c : Classifier} (h : ∀ m, c.model = some m → m.Sound) (text : String) :
    (∀ f ∈ c.predict text, f.isFileLevel = true) ∧
      ((c.predict text).map (·.category)).Sublist Category.all := by
  unfold predict
  cases hmodel : c.model with
  | none => simp
  | some m =>
    constructor
    · intro f hf
      obtain ⟨p, -, rfl⟩ := List.mem_map.mp hf
      rfl
    · rw [List.map_map]
      exact (h m hmodel).positive_sublist text

/-- After any run of a classifier that began without a model, over any store:

* it holds the model of the last training or loading that succeeded, or none if there was none;
* whatever failed left it as it was;
* the model that it holds is sound, so that for every text each category has its probability from
  its own unit, in order, and no list is cut short;
* it predicts findings on the file as a whole, in the order of the categories and without repeats. -/
theorem run_model_last_made (settings : ClassifierSettings) (kept : σ) (ops : List Operation) :
    let start : State σ := ⟨⟨settings, none⟩, kept⟩
    let events := history store start ops
    let last := (run store start ops).classifier
    last = ⟨settings, (events.filterMap (·.made? store settings)).getLast?⟩ ∧
    (∀ e ∈ events, ((e.made? store settings).isSome = true ↔ e.Renewed) ∧
      (e.Failed → e.after.classifier = e.before.classifier)) ∧
    (∀ m, last.model = some m → m.Sound ∧ ∀ text,
      (m.probabilities text).map (·.1) = Category.all ∧
      (m.probabilities text).map (·.2) = m.units.map (·.probability (m.vectorizer.transform text)) ∧
      (m.vectorizer.transform text).length = m.vectorizer.idf.length ∧
      ∀ u ∈ m.units, u.weights.length = (m.vectorizer.transform text).length) ∧
    ∀ text, (∀ f ∈ last.predict text, f.isFileLevel = true) ∧
      ((last.predict text).map (·.category)).Sublist Category.all ∧
      ((last.predict text).map (·.category)).Nodup := by
  intro start events last
  have hlast : last = ⟨settings, (events.filterMap (·.made? store settings)).getLast?⟩ := by
    have hrun := classifier_run store start ops
    rwa [Option.or_none] at hrun
  have hsound : ∀ m, last.model = some m → m.Sound := by
    intro m hm
    rw [hlast] at hm
    obtain ⟨e, -, hmade⟩ := List.mem_filterMap.mp (List.mem_of_getLast? hm)
    exact Operation.made?_sound store hmade
  refine ⟨hlast, fun e he => Event.classifier_of_mem store he, ?_, ?_⟩
  · intro m hm
    have h := hsound m hm
    refine ⟨h, fun text => ?_⟩
    obtain ⟨hlabels, hunits⟩ := h.probabilities_eq text
    obtain ⟨hidf, hweights⟩ := h.length_transform text
    exact ⟨hlabels, hunits, hidf, hweights⟩
  · intro text
    obtain ⟨hwhole, hsublist⟩ := predict_of_sound hsound text
    exact ⟨hwhole, hsublist, List.Nodup.sublist hsublist (by decide)⟩

/-- A training without examples, a model written past the classifier and loaded, and a loading from
a key that nothing is kept under. -/
theorem run_model_of_loaded :
    ∃ bytes, Model.ofBytes bytes = .ok (Model.extreme 0.1) ∧
      let ops : List Operation := [.train [] ⟨0, 0⟩, .write "m" bytes, .load "m", .load "gone"]
      let start : State Blobs := ⟨⟨{}, none⟩, []⟩
      let last := (run .memory start ops).classifier
      last.model = some (Model.extreme 0.1) ∧
        (∃ e ∈ history .memory start ops, e.Failed ∧ e.before.classifier.isTrained = true ∧
          e.after.classifier = e.before.classifier) ∧
        ∀ text, ((Model.extreme 0.1).probabilities text).map (·.1) = Category.all := by
  obtain ⟨bytes, hbytes⟩ : ∃ bytes, Model.ofBytes bytes = .ok (Model.extreme 0.1) := by
    refine ⟨(Model.extreme 0.1).text.toUTF8, ?_⟩
    have hflaw : (Model.extreme 0.1).flaw? = none := by decide +kernel
    rw [Model.ofBytes_toUTF8, Model.ofText_text_of_finite ⟨by decide, by decide, by decide, by decide,
      by decide⟩ (by decide +kernel), hflaw]
  refine ⟨bytes, hbytes, ?_⟩
  intro ops start last
  obtain ⟨-, hevents, hmodel, -⟩ := run_model_last_made ModelStore.memory {} ([] : Blobs) ops
  let loaded : State Blobs := ⟨⟨{}, some (Model.extreme 0.1)⟩, [("m", bytes)]⟩
  have hload : step .memory ⟨⟨{}, none⟩, [("m", bytes)]⟩ (.load "m") = (loaded, .loaded) := by
    have hread : (ModelStore.memory.read "m").run [("m", bytes)]
        = (.ok (some bytes), [("m", bytes)]) := rfl
    simp only [step, run_load, hread, restore, hbytes]
    rfl
  have hlast : last = loaded.classifier := by
    show (run .memory (step .memory ⟨⟨{}, none⟩, [("m", bytes)]⟩ (.load "m")).1
      [.load "gone"]).classifier = _
    rw [hload]
    rfl
  have hgone : ⟨loaded, .load "gone", .failed (.modelNotFound "gone"), loaded⟩
      ∈ history ModelStore.memory start ops := by
    show _ ∈ _ :: _ :: _ :: history .memory
      (step .memory ⟨⟨{}, none⟩, [("m", bytes)]⟩ (.load "m")).1 [.load "gone"]
    rw [hload]
    iterate 3 apply List.mem_cons_of_mem
    exact List.mem_singleton.mpr rfl
  refine ⟨by rw [hlast], ⟨_, hgone, trivial, rfl, (hevents _ hgone).2 trivial⟩, fun text => ?_⟩
  exact ((hmodel (Model.extreme 0.1) (congrArg Classifier.model hlast)).2 text).1

end DefectScan.Learning.Classifier
