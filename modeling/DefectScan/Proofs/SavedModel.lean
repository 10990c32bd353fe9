import DefectScan.Proofs.ClassifierRuns
import DefectScan.Proofs.Infinities

/-!
# Models that are saved and loaded again

A classifier is trained and saves its model; another one loads it. Whether that works is decided by
the numbers of the model alone:

    finite m      →  load gives m, and both predict the same on every text
    not finite m  →  load refuses the text as one of another shape

Training checks no number but the threshold, and a text cannot hold an infinite number. So a model
that was trained and saved without complaint may be lost: a learning rate that is not finite spoils
every bias in the first epoch (`bias_run_not_finite`), whatever the examples are.
-/

namespace DefectScan.Learning

open Binary64

/-! ## Descent -/

namespace LogisticUnit

theorem bias_epoch_not_finite {params : TrainingParams} (h : params.learningRate.isFinite = false)
    (features : List (List Float)) (targets : List Bool) (u : LogisticUnit) :
    (epoch params features targets u).bias.isFinite = false := by
  unfold epoch
  apply sub_isFinite_right
  apply div_isFinite_left
  exact mul_isFinite_left h _

/-- A learning rate that is not finite spoils the bias, and no epoch brings it back. -/
theorem bias_run_not_finite {params : TrainingParams} (h : params.learningRate.isFinite = false)
    (features : List (List Float)) (targets : List Bool) (n : Nat) (u : LogisticUnit) :
    (run params features targets (n + 1) u).bias.isFinite = false := by
  induction n generalizing u with
  | zero => exact bias_epoch_not_finite h features targets u
  | succ n ih => exact ih (epoch params features targets u)

end LogisticUnit

namespace Model

/-- What training accepts: an example, a vocabulary, and a threshold that is a probability. -/
theorem inputFlaw?_eq_none {examples : List Example} {s : ClassifierSettings}
    (h : inputFlaw? examples s = none) :
    examples ≠ [] ∧ s.maxFeatures ≠ 0 ∧ 0 ≤ s.threshold ∧ s.threshold ≤ 1 := by
  unfold inputFlaw? at h
  split at h
  · cases h
  · next hexamples =>
    split at h
    · cases h
    · next hfeatures =>
      split at h
      · cases h
      · next hthreshold =>
        simp only [Bool.not_eq_true, Bool.not_eq_false', Bool.and_eq_true, decide_eq_true_eq]
          at hthreshold
        refine ⟨?_, hfeatures, hthreshold⟩
        rintro rfl
        exact hexamples rfl

variable {examples : List Example} {s : ClassifierSettings} {now : Timestamp} {m : Model}

theorem inputFlaw?_of_fit (h : fit examples s now = .ok m) : inputFlaw? examples s = none := by
  unfold fit at h
  split at h
  · cases h
  · next hflaw => exact hflaw

theorem threshold_of_fit (h : fit examples s now = .ok m) : 0 ≤ m.threshold ∧ m.threshold ≤ 1 := by
  have hflaw := inputFlaw?_of_fit h
  unfold fit at h
  rw [hflaw] at h
  cases h
  exact (inputFlaw?_eq_none hflaw).2.2

theorem isFinite_threshold_of_fit (h : fit examples s now = .ok m) :
    m.threshold.isFinite = true := by
  obtain ⟨hlow, hhigh⟩ := threshold_of_fit h
  exact isFinite_of_between rfl rfl hlow hhigh

theorem storable_of_fit (h : fit examples s now = .ok m)
    (hcount : examples.length < Json.Decode.countLimit) (hnow : now.Plain) : m.Storable := by
  unfold fit at h
  rw [inputFlaw?_of_fit h] at h
  cases h
  refine ⟨?_, hcount, hnow⟩
  show Learning.formatVersion < 2 ^ 32
  decide

theorem fit_not_finite (h : fit examples s now = .ok m) (hepochs : 0 < s.epochs)
    (hrate : s.learningRate.isFinite = false) : ¬ m.Finite := by
  have hflaw := inputFlaw?_of_fit h
  obtain ⟨first, rest, rfl⟩ := List.exists_cons_of_ne_nil (inputFlaw?_eq_none hflaw).1
  obtain ⟨n, hn⟩ : ∃ n, s.epochs = n + 1 := ⟨s.epochs - 1, by omega⟩
  unfold fit at h
  rw [hflaw] at h
  cases h
  rintro ⟨-, -, hunits⟩
  have hbias := (hunits _ (List.mem_map_of_mem (Category.mem_all .memoryLeak))).2
  simp only [List.map_cons, LogisticUnit.fit, hn] at hbias
  rw [LogisticUnit.bias_run_not_finite (by exact hrate)] at hbias
  cases hbias

/-- Of the numbers of a trained model the threshold is always finite. -/
theorem finite_of_fit (h : fit examples s now = .ok m) :
    m.Finite ↔ m.vectorizer.Finite ∧ ∀ u ∈ m.units, u.Finite := by
  constructor
  · intro hfinite
    exact hfinite.2
  · intro hfinite
    exact ⟨isFinite_threshold_of_fit h, hfinite⟩

end Model

/-! ## Stores -/

/-- What is written under a key is there to be read. -/
def ModelStore.Retains {σ : Type} (store : ModelStore (StateM σ)) (kept : σ) (key : String) : Prop :=
  ∀ content kept', (store.write key content).run kept = (.ok (), kept') →
    ∃ kept'', (store.read key).run kept' = (.ok (some content), kept'')

theorem ModelStore.retains_memory (kept : Blobs) (key : String) : memory.Retains kept key := by
  rintro content kept' ⟨rfl⟩
  refine ⟨kept.put key content, ?_⟩
  show (Except.ok (Blobs.get? (kept.put key content) key), kept.put key content) = _
  rw [Blobs.get?_put, if_pos rfl]

namespace Classifier

variable {σ : Type} {store : ModelStore (StateM σ)} {kept kept' : σ} {key : String} {c : Classifier}
  {m : Model}

theorem written_of_save (hmodel : c.model = some m)
    (hsave : (c.save store key).run kept = (.ok (), kept')) :
    (store.write key m.text.toUTF8).run kept = (.ok (), kept') := by
  unfold save at hsave
  rw [hmodel] at hsave
  simp only [StateT.run_bind] at hsave
  rcases hwrite : (store.write key m.text.toUTF8).run kept with ⟨result, after⟩
  rw [hwrite] at hsave
  cases result with
  | error e => cases hsave
  | ok _ =>
    cases hsave
    rfl

/-- Loading what was saved is reading the bytes of the model. -/
theorem load_of_save (hstore : store.Retains kept key) (hmodel : c.model = some m)
    (hsave : (c.save store key).run kept = (.ok (), kept')) :
    ∃ kept'', ∀ fresh : Classifier,
      (fresh.load store key).run kept' = (fresh.restore m.text.toUTF8, kept'') := by
  obtain ⟨kept'', hread⟩ := hstore _ _ (written_of_save hmodel hsave)
  refine ⟨kept'', ?_⟩
  intro fresh
  rw [run_load, hread]

theorem restore_of_finite (hstorable : m.Storable) (hsound : m.Sound) (hfinite : m.Finite)
    (fresh : Classifier) : fresh.restore m.text.toUTF8 = .ok { fresh with model := some m } := by
  have hbytes : Model.ofBytes m.text.toUTF8 = .ok m := by
    rw [Model.ofBytes_toUTF8, Model.ofText_text_of_finite hstorable hfinite,
      (Model.flaw?_eq_none_iff m).mpr hsound]
  unfold restore
  rw [hbytes]
  rfl

theorem restore_of_not_finite (hstorable : m.Storable) (hno : ¬ m.Finite) (fresh : Classifier) :
    fresh.restore m.text.toUTF8 = .error (.json .mismatch) := by
  unfold restore
  rw [Model.ofBytes_toUTF8, Model.ofText_text_of_not_finite hstorable hno]
  rfl

theorem train_eq_ok {examples : List Example} {now : Timestamp} {c' : Classifier}
    {summary : TrainingSummary} (h : c.train examples now = .ok (c', summary)) :
    ∃ m, Model.fit examples c.settings now = .ok m ∧ c' = { c with model := some m } := by
  unfold train at h
  cases hfit : Model.fit examples c.settings now with
  | error e =>
    rw [hfit] at h
    cases h
  | ok m =>
    rw [hfit] at h
    cases h
    exact ⟨m, rfl, rfl⟩

/-! ## Main result -/

/-- A model that was trained and then saved is loaded again exactly if all weights, biases and
frequencies that training has computed are finite. Then whoever loads it predicts on every text what
the trained classifier predicts; otherwise the text is refused. After a training with a learning rate
that is not finite it always is refused. -/
theorem load_saved {examples : List Example} {now : Timestamp} {c' : Classifier}
    {summary : TrainingSummary} (hcount : examples.length < Json.Decode.countLimit) (hnow : now.Plain)
    (htrain : c.train examples now = .ok (c', summary)) (hstore : store.Retains kept key)
    (hsave : (c'.save store key).run kept = (.ok (), kept')) :
    ∃ m kept'', c'.model = some m ∧
      (m.Finite ↔ m.vectorizer.Finite ∧ ∀ u ∈ m.units, u.Finite) ∧
      (0 < c.settings.epochs → c.settings.learningRate.isFinite = false → ¬ m.Finite) ∧
      ∀ fresh : Classifier,
        (m.Finite → ∃ loaded, (fresh.load store key).run kept' = (.ok loaded, kept'') ∧
          loaded = { fresh with model := some m } ∧ ∀ text, loaded.predict text = c'.predict text) ∧
        (¬ m.Finite → (fresh.load store key).run kept' = (.error (.json .mismatch), kept'')) := by
  obtain ⟨m, hfit, rfl⟩ := train_eq_ok htrain
  obtain ⟨kept'', hload⟩ := load_of_save hstore rfl hsave
  have hstorable := Model.storable_of_fit hfit hcount hnow
  refine ⟨m, kept'', rfl, Model.finite_of_fit hfit, Model.fit_not_finite hfit, ?_⟩
  intro fresh
  rw [hload fresh]
  constructor
  · intro hfinite
    refine ⟨{ fresh with model := some m }, ?_, rfl, fun text => rfl⟩
    rw [restore_of_finite hstorable (Model.fit_sound hfit) hfinite]
  · intro hno
    rw [restore_of_not_finite hstorable hno]

theorem exists_train {examples : List Example} (now : Timestamp)
    (h : Model.inputFlaw? examples c.settings = none) :
    ∃ m summary, Model.fit examples c.settings now = .ok m ∧
      c.train examples now = .ok ({ c with model := some m }, summary) := by
  have hfit : ∃ m, Model.fit examples c.settings now = .ok m := by
    unfold Model.fit
    rw [h]
    exact ⟨_, rfl⟩
  obtain ⟨m, hm⟩ := hfit
  refine ⟨m, ⟨examples.length, m.vectorizer.size, labelCounts examples⟩, hm, ?_⟩
  unfold train
  rw [hm]
  rfl

/-- Memory keeps what a trained classifier saves. -/
theorem save_memory (hmodel : c.model = some m) (key : String) (kept : Blobs) :
    (c.save .memory key).run kept = (.ok (), kept.put key m.text.toUTF8) := by
  unfold save
  rw [hmodel]
  rfl

/-- Texts of two categories, one of both and one of none. -/
def labelledTexts : List Example :=
  [⟨"char *p = malloc(8);", [.memoryLeak]⟩, ⟨"char d[4]; strcpy(d, s);", [.bufferOverflow]⟩,
    ⟨"char *q = malloc(4); strcpy(q, s);", [.memoryLeak, .bufferOverflow]⟩, ⟨"return 0;", []⟩]

def infiniteRate : ClassifierSettings := { learningRate := 1 / 0, epochs := 3 }

/-- After a training on several texts with an infinite learning rate every classifier refuses what was
saved. -/
theorem load_saved_with_infinite_rate :
    infiniteRate.learningRate.isFinite = false ∧
    ∃ c' summary kept kept', (⟨infiniteRate, none⟩ : Classifier).train labelledTexts ⟨0, 0⟩
        = .ok (c', summary) ∧ summary.examples = 4 ∧ c'.isTrained = true ∧
      (c'.save .memory "m").run [] = (.ok (), kept) ∧
      (∃ m, c'.model = some m ∧ ¬ m.Finite) ∧
      ∀ fresh : Classifier, (fresh.load .memory "m").run kept = (.error (.json .mismatch), kept') := by
  obtain ⟨m, summary, hfit, htrain⟩ := exists_train (c := ⟨infiniteRate, none⟩) ⟨0, 0⟩
    (by decide +kernel : Model.inputFlaw? labelledTexts infiniteRate = none)
  have hrate : infiniteRate.learningRate.isFinite = false := by decide +kernel
  have hsave := save_memory (c := ⟨infiniteRate, some m⟩) rfl "m" []
  obtain ⟨m', kept', hmodel, -, hspoilt, hload⟩ := load_saved (by decide)
    ⟨by decide, by decide, by decide⟩ htrain (ModelStore.retains_memory [] "m") hsave
  have hno : ¬ m'.Finite := hspoilt (by decide) hrate
  have hsummary : summary.examples = 4 := by
    unfold train at htrain
    rw [hfit] at htrain
    cases htrain
    rfl
  exact ⟨hrate, _, summary, _, kept', htrain, hsummary, rfl, hsave, ⟨m', hmodel, hno⟩,
    fun fresh => (hload fresh).2 hno⟩

/-- With an infinite learning rate a model is trained and saved, and cannot be loaded. -/
theorem saved_with_infinite_rate_not_loaded :
    let settings : ClassifierSettings := { learningRate := 1 / 0, epochs := 1 }
    ∃ c' summary kept, (⟨settings, none⟩ : Classifier).train [⟨"", [.memoryLeak]⟩] ⟨0, 0⟩
        = .ok (c', summary) ∧ c'.isTrained = true ∧
      (c'.save .memory "m").run [] = (.ok (), kept) ∧
      ∃ kept', ((⟨settings, none⟩ : Classifier).load .memory "m").run kept
        = (.error (.json .mismatch), kept') := by
  intro settings
  obtain ⟨m, summary, hfit, htrain⟩ := exists_train (c := ⟨settings, none⟩) ⟨0, 0⟩
    (by decide +kernel : Model.inputFlaw? [⟨"", [.memoryLeak]⟩] settings = none)
  have hsave := save_memory (c := ⟨settings, some m⟩) rfl "m" []
  have hno : ¬ m.Finite := Model.fit_not_finite hfit (by decide) (by decide +kernel)
  have hstorable := Model.storable_of_fit hfit (by decide) ⟨by decide, by decide, by decide⟩
  obtain ⟨kept', hload⟩ := load_of_save (ModelStore.retains_memory [] "m") rfl hsave
  refine ⟨_, summary, _, htrain, rfl, hsave, kept', ?_⟩
  rw [hload, restore_of_not_finite hstorable hno]

end Classifier

end DefectScan.Learning
