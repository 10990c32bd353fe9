import DefectScan.Proofs.SavedModel

/-!
# The threshold of an active model

A model becomes active by a training or by a loading, and only the training looks at the threshold:

    trained  →  0 ≤ threshold ≤ 1
    loaded   →  the threshold is finite, and any finite number will do

So after any run a threshold outside of the unit interval was read from the store
(`threshold_of_made?`), and for every finite number there is a model with this threshold that is
taken (`ofBytes_extreme`).
-/

namespace DefectScan

theorem Json.Decode.isFinite_of_float {d : Json.Doc} {x : Float} (h : float d = .ok x) :
    x.isFinite = true := by
  unfold float at h
  split at h
  · next n =>
    unfold Json.Numeral.toFloat? at h
    simp only at h
    split at h
    · next y hy =>
      cases h
      split at hy
      · next hfinite =>
        cases hy
        exact hfinite
      · cases hy
    · cases h
  · cases h

namespace Learning

open Json.Decode

theorem exists_of_bind_ok {ε α β : Type} {x : Except ε α} {f : α → Except ε β} {b : β}
    (h : (x >>= f) = .ok b) : ∃ a, x = .ok a ∧ f a = .ok b := by
  cases x with
  | error e => cases h
  | ok a => exact ⟨a, rfl, h⟩

namespace Model

/-- A text holds no number that is not finite. -/
theorem isFinite_threshold_of_decode {d : Json.Doc} {m : Model} (h : decode d = .ok m) :
    m.threshold.isFinite = true := by
  unfold decode at h
  obtain ⟨r, -, h⟩ := exists_of_bind_ok h
  obtain ⟨version, -, h⟩ := exists_of_bind_ok h
  obtain ⟨labels, -, h⟩ := exists_of_bind_ok h
  obtain ⟨threshold, hthreshold, h⟩ := exists_of_bind_ok h
  obtain ⟨vectorizer, -, h⟩ := exists_of_bind_ok h
  obtain ⟨units, -, h⟩ := exists_of_bind_ok h
  obtain ⟨examples, -, h⟩ := exists_of_bind_ok h
  obtain ⟨time, -, h⟩ := exists_of_bind_ok h
  cases h
  unfold field at hthreshold
  split at hthreshold
  · exact isFinite_of_float hthreshold
  · cases hthreshold

theorem isFinite_threshold_of_ofBytes {bytes : ByteArray} {m : Model} (h : ofBytes bytes = .ok m) :
    m.threshold.isFinite = true := by
  unfold ofBytes at h
  split at h
  · unfold ofText at h
    split at h
    · cases h
    · next m' hdecode =>
      split at h
      · cases h
      · cases h
        unfold Json.decodeText at hdecode
        split at hdecode
        split at hdecode
        · cases hdecode
        · next x hx =>
          split at hdecode
          · split at hdecode
            · cases hdecode
              exact isFinite_threshold_of_decode hx
            · cases hdecode
          · cases hdecode
  · cases h

/-- Training makes no model with another threshold than a probability. -/
theorem fit_ne_ok {examples : List Example} {s : ClassifierSettings}
    (h : ¬ (0 ≤ s.threshold ∧ s.threshold ≤ 1)) (now : Timestamp) (m : Model) :
    fit examples s now ≠ .ok m := by
  intro hfit
  exact h (inputFlaw?_eq_none (inputFlaw?_of_fit hfit)).2.2

/-- Whatever finite number stands for the threshold, the model is taken. -/
theorem ofBytes_extreme {t : Float} (h : t.isFinite = true) :
    ofBytes (extreme t).text.toUTF8 = .ok (extreme t) := by
  have hstorable : (extreme t).Storable := by
    refine ⟨?_, ?_, ?_, ?_, ?_⟩
    · show 1 < 2 ^ 32
      decide
    · show 18446744073709551615 < countLimit
      decide
    · show 0 ≤ (Timestamp.civilFromDays (253402300799 / 86400)).1
      decide
    · show (Timestamp.civilFromDays (253402300799 / 86400)).1 ≤ 9999
      decide
    · show 999999999 < 1000000000
      decide
  have hrest : (extreme 0).Finite := by decide +kernel
  have hfinite : (extreme t).Finite := ⟨h, hrest.2⟩
  have hflaw : (extreme t).flaw? = none := by
    show (extreme 0).flaw? = none
    decide +kernel
  rw [ofBytes_toUTF8, ofText_text_of_finite hstorable hfinite, hflaw]

end Model

namespace Classifier

variable {σ : Type} (store : ModelStore (StateM σ))

/-- All that an operation can make: a threshold that was trained is a probability, and any other was
read from the store. -/
theorem threshold_of_made? {settings : ClassifierSettings} {kept : σ} {op : Operation} {m : Model}
    (h : op.made? store settings kept = some m) :
    m.threshold.isFinite = true ∧ (0 ≤ m.threshold ∧ m.threshold ≤ 1 ∨
      ∃ key, op = .load key ∧ kept? store key kept = some m) := by
  rcases Operation.made?_cases store h with ⟨examples, now, -, hfit⟩ | ⟨key, bytes, rfl, -, hbytes⟩
  · exact ⟨Model.isFinite_threshold_of_fit hfit, Or.inl (Model.threshold_of_fit hfit)⟩
  · exact ⟨Model.isFinite_threshold_of_ofBytes hbytes, Or.inr ⟨key, rfl, h⟩⟩

/-- What is written to memory and loaded becomes active, if it is taken for a model. -/
theorem active_of_written (settings : ClassifierSettings) {content : ByteArray} {m : Model}
    (h : Model.ofBytes content = .ok m) :
    (run .memory ⟨⟨settings, none⟩, ([] : Blobs)⟩ [.write "m" content, .load "m"]).classifier.model
      = some m := by
  have hread : (ModelStore.memory.read "m").run [("m", content)]
      = (.ok (some content), [("m", content)]) := rfl
  show (step .memory ⟨⟨settings, none⟩, [("m", content)]⟩ (.load "m")).1.classifier.model = _
  rw [(classifier_step _ _ _).1]
  show ((kept? .memory "m" [("m", content)]).or none) = _
  unfold kept?
  rw [hread]
  simp only [h]
  rfl

/-! ## Main result -/

/-- After any run over any store, the threshold of the active model is a finite number, and one
outside of the unit interval was loaded. Nothing more can be said: every finite number becomes the
threshold of the active model by being written to a store and loaded, and a training with one outside
of the interval is refused. -/
theorem threshold_of_active (settings : ClassifierSettings) (kept : σ) (ops : List Operation) :
    (∀ m, (run store ⟨⟨settings, none⟩, kept⟩ ops).classifier.model = some m →
      m.threshold.isFinite = true ∧ (0 ≤ m.threshold ∧ m.threshold ≤ 1 ∨
        ∃ e ∈ history store ⟨⟨settings, none⟩, kept⟩ ops, ∃ key, e.operation = .load key ∧
          kept? store key e.before.kept = some m)) ∧
    (∀ t : Float, t.isFinite = true → ∃ content,
      (run .memory ⟨⟨settings, none⟩, ([] : Blobs)⟩ [.write "m" content, .load "m"]).classifier.model.map
        (·.threshold) = some t) ∧
    ∀ t : Float, ¬ (0 ≤ t ∧ t ≤ 1) → ∀ examples now m,
      Model.fit examples { settings with threshold := t } now ≠ .ok m := by
  refine ⟨?_, ?_, ?_⟩
  · intro m hm
    rw [classifier_run, Option.or_none] at hm
    obtain ⟨e, he, hmade⟩ := List.mem_filterMap.mp (List.mem_of_getLast? hm)
    obtain ⟨hfinite, hunit | ⟨key, hload, hkept⟩⟩ := threshold_of_made? store hmade
    · exact ⟨hfinite, Or.inl hunit⟩
    · exact ⟨hfinite, Or.inr ⟨e, he, key, hload, hkept⟩⟩
  · intro t ht
    refine ⟨(Model.extreme t).text.toUTF8, ?_⟩
    rw [active_of_written settings (Model.ofBytes_extreme ht)]
    rfl
  · intro t ht examples now m
    exact Model.fit_ne_ok (s := { settings with threshold := t }) ht now m

/-- A threshold of a quarter that was loaded, and one below zero that is refused in training. -/
theorem threshold_of_active_quarter :
    ∃ content m, (run .memory ⟨⟨{}, none⟩, ([] : Blobs)⟩
        [.write "m" content, .load "m"]).classifier.model = some m ∧ m.threshold = 0.25 ∧
      m.threshold.isFinite = true ∧
      ∀ examples now m', Model.fit examples { threshold := -1 } now ≠ .ok m' := by
  obtain ⟨-, hany, hrefused⟩ := threshold_of_active ModelStore.memory {} ([] : Blobs) []
  obtain ⟨content, hcontent⟩ := hany 0.25 (by decide +kernel)
  obtain ⟨m, hm, hquarter⟩ := Option.map_eq_some_iff.mp hcontent
  obtain ⟨hactive, -, -⟩ :=
    threshold_of_active ModelStore.memory {} ([] : Blobs) [.write "m" content, .load "m"]
  exact ⟨content, m, hm, hquarter, (hactive m hm).1, hrefused (-1) (by decide +kernel)⟩

/-- A threshold of one and a half is refused in training, but active once it was loaded. -/
theorem loaded_threshold_above_one :
    ¬ ((0 : Float) ≤ 1.5 ∧ (1.5 : Float) ≤ 1) ∧
      (∀ examples now m, Model.fit examples { threshold := 1.5 } now ≠ .ok m) ∧
      ∃ content m, (run .memory ⟨⟨{}, none⟩, ([] : Blobs)⟩
        [.write "m" content, .load "m"]).classifier.model = some m ∧ m.threshold = 1.5 := by
  have hout : ¬ ((0 : Float) ≤ 1.5 ∧ (1.5 : Float) ≤ 1) := by decide +kernel
  refine ⟨hout, ?_, (Model.extreme 1.5).text.toUTF8, Model.extreme 1.5, ?_, rfl⟩
  · intro examples now m
    exact Model.fit_ne_ok (s := { threshold := 1.5 }) hout now m
  · exact active_of_written {} (Model.ofBytes_extreme (by decide +kernel))

end Classifier

end Learning

end DefectScan
