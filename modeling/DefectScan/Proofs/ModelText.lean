import DefectScan.Codec.Model
import DefectScan.Proofs.RecordText
import DefectScan.Proofs.SoundModel
import DefectScan.Proofs.TimestampText

/-!
# Models read back from their bytes

A model whose numbers are all finite is read back from its text as it is, so that only the check of
the model decides whether it is taken; a number that is not finite is written as `null`, and the
text is refused:

    finite m      →  ofBytes m.text.toUTF8 = m, or the first flaw of m
    not finite m  →  ofBytes m.text.toUTF8 = a fault of the text

Vectorizers, units and models are records of lists, so their decoders are followed part by part
(`Written`).
-/

namespace DefectScan.Learning

open Json.Decode

/-! ## Finite models -/

def Vectorizer.Finite (v : Vectorizer) : Prop := ∀ x ∈ v.idf, x.isFinite = true

def LogisticUnit.Finite (u : LogisticUnit) : Prop :=
  (∀ x ∈ u.weights, x.isFinite = true) ∧ u.bias.isFinite = true

/-- All numbers of a model are finite. -/
def Model.Finite (m : Model) : Prop :=
  m.threshold.isFinite = true ∧ m.vectorizer.Finite ∧ ∀ u ∈ m.units, u.Finite

instance (v : Vectorizer) : Decidable v.Finite :=
  inferInstanceAs (Decidable (∀ x ∈ v.idf, x.isFinite = true))

instance (u : LogisticUnit) : Decidable u.Finite :=
  inferInstanceAs (Decidable ((∀ x ∈ u.weights, x.isFinite = true) ∧ u.bias.isFinite = true))

instance (m : Model) : Decidable m.Finite :=
  inferInstanceAs (Decidable
    (m.threshold.isFinite = true ∧ m.vectorizer.Finite ∧ ∀ u ∈ m.units, u.Finite))

/-- The whole numbers of a model fit into their words, and its time is a plain instant. -/
structure Model.Storable (m : Model) : Prop where
  version_lt : m.formatVersion < 2 ^ 32
  examples_lt : m.trainedExamples < countLimit
  trainedAt_plain : m.trainedAt.Plain

/-! ## Parts -/

theorem written_smallCount {n : ℕ} (h : n < 2 ^ 32) : Written smallCount (.int n) n True := by
  have hcount : n < countLimit := h.trans (by decide)
  refine .of_ok ?_
  rw [smallCount, (written_count hcount).accepted trivial]
  exact if_pos h

theorem written_timestamp {t : Timestamp} (h : t.Plain) :
    Written timestamp (.str t.text) t True := by
  refine .of_ok ?_
  rw [timestamp, (written_string t.text).accepted trivial]
  simp only [bind, Except.bind, Timestamp.ofText?_text h]
  rfl

theorem written_category (c : Category) : Written Category.decode c.encode c True :=
  written_name (Category.ofName?_name c)

theorem written_floats (xs : List Float) :
    Written (list float) (.arr (xs.map .real)) xs (∀ x ∈ xs, x.isFinite = true) :=
  written_list fun x _ => written_float x

theorem written_vectorizer (v : Vectorizer) :
    Written Vectorizer.decode v.encode v v.Finite := by
  have hterms : Written (list string) (.arr (v.terms.map .str)) v.terms (∀ s ∈ v.terms, True) :=
    written_list fun s _ => written_string s
  have hidf := written_floats v.idf
  have hcovers : Covers ["terms", "idf"] Vectorizer.fields := ⟨by decide, by decide, by decide⟩
  have hrecord : Written Vectorizer.decode v.encode v _ :=
    written_record hcovers rfl (.cons (hterms.part rfl) (.cons (hidf.part rfl) .nil)) (by
      rintro ⟨hterm, hfinite, -⟩
      exact bind_of_ok (hterms.accepted hterm) (bind_of_ok (hidf.accepted hfinite) rfl))
  exact hrecord.congr (by simp [Vectorizer.Finite])

theorem written_unit (u : LogisticUnit) : Written LogisticUnit.decode u.encode u u.Finite := by
  have hweights := written_floats u.weights
  have hbias := written_float u.bias
  have hcovers : Covers ["weights", "bias"] LogisticUnit.fields := ⟨by decide, by decide, by decide⟩
  have hrecord : Written LogisticUnit.decode u.encode u _ :=
    written_record hcovers rfl (.cons (hweights.part rfl) (.cons (hbias.part rfl) .nil)) (by
      rintro ⟨hfinite, hfinite', -⟩
      exact bind_of_ok (hweights.accepted hfinite) (bind_of_ok (hbias.accepted hfinite') rfl))
  exact hrecord.congr (by simp [LogisticUnit.Finite])

theorem written_model {m : Model} (h : m.Storable) : Written Model.decode m.encode m m.Finite := by
  have hversion := written_smallCount h.version_lt
  have hlabels : Written (list Category.decode) (.arr (m.labels.map Category.encode)) m.labels
      (∀ c ∈ m.labels, True) :=
    written_list fun c _ => written_category c
  have hthreshold := written_float m.threshold
  have hvectorizer := written_vectorizer m.vectorizer
  have hunits : Written (list LogisticUnit.decode) (.arr (m.units.map LogisticUnit.encode)) m.units
      (∀ u ∈ m.units, u.Finite) :=
    written_list fun u _ => written_unit u
  have hexamples := written_count h.examples_lt
  have htime := written_timestamp h.trainedAt_plain
  have hcovers : Covers ["format_version", "labels", "threshold", "vectorizer", "units",
      "trained_examples", "trained_at"] Model.fields := ⟨by decide, by decide, by decide⟩
  have hrecord : Written Model.decode m.encode m _ :=
    written_record hcovers rfl (.cons (hversion.part rfl) (.cons (hlabels.part rfl)
      (.cons (hthreshold.part rfl) (.cons (hvectorizer.part rfl) (.cons (hunits.part rfl)
      (.cons (hexamples.part rfl) (.cons (htime.part rfl) .nil))))))) (by
      rintro ⟨-, hlabel, hfinite, hfinite', hfinite'', -⟩
      exact bind_of_ok (hversion.accepted trivial) (bind_of_ok (hlabels.accepted hlabel)
        (bind_of_ok (hthreshold.accepted hfinite) (bind_of_ok (hvectorizer.accepted hfinite')
        (bind_of_ok (hunits.accepted hfinite'') (bind_of_ok (hexamples.accepted trivial)
        (bind_of_ok (htime.accepted trivial) rfl)))))))
  exact hrecord.congr (by simp [Model.Finite])

/-! ## Whole models -/

namespace Model

theorem ofBytes_toUTF8 (s : String) : ofBytes s.toUTF8 = ofText s := by
  have hvalid : String.fromUTF8? s.toUTF8 = some s := dif_pos s.isValidUTF8
  unfold ofBytes
  rw [hvalid]

theorem ofText_text_of_finite {m : Model} (h : m.Storable) (hfinite : m.Finite) :
    ofText m.text =
      match m.flaw? with
      | some reason => .error (.incompatible reason)
      | none => .ok m := by
  have hdecode : Json.decodeText decode m.text.toList = .ok m := by
    rw [text, Json.decodeText_pretty, (written_model h).accepted hfinite]
  cases hflaw : m.flaw? with
  | some reason => simp only [ofText, hdecode, hflaw]
  | none => simp only [ofText, hdecode, hflaw]

theorem ofText_text_of_not_finite {m : Model} (h : m.Storable) (hno : ¬ m.Finite) :
    ofText m.text = .error (.json .mismatch) := by
  unfold ofText text
  rw [Json.decodeText_pretty, (written_model h).refused hno]

/-- A model that is read from the bytes of `m` is `m`. -/
theorem eq_of_ofText_text {m m' : Model} (h : m.Storable) (hread : ofText m.text = .ok m') :
    m' = m := by
  by_cases hfinite : m.Finite
  · rw [ofText_text_of_finite h hfinite] at hread
    cases hflaw : m.flaw? with
    | some reason =>
      rw [hflaw] at hread
      cases hread
    | none =>
      rw [hflaw] at hread
      cases hread
      rfl
  · rw [ofText_text_of_not_finite h hfinite] at hread
    cases hread

/-- The bytes of a model with finite numbers are read back as the model if it is sound, and else
refused for its first flaw; those of any other model are refused as a text of another shape. So a
model that was read has the checksum of the one that was written, and judges texts like it. -/
theorem ofBytes_text {m : Model} (h : m.Storable) :
    (m.Finite → (ofBytes m.text.toUTF8 = .ok m ↔ m.Sound) ∧
        (¬ m.Sound → ∃ reason, m.flaw? = some reason ∧
          ofBytes m.text.toUTF8 = .error (.incompatible reason))) ∧
      (¬ m.Finite → ofBytes m.text.toUTF8 = .error (.json .mismatch)) ∧
      ∀ m', ofBytes m.text.toUTF8 = .ok m' →
        m' = m ∧ m'.checksum = m.checksum ∧ ∀ source,
          m'.probabilities source = m.probabilities source ∧
            m'.positive source = m.positive source := by
  rw [ofBytes_toUTF8]
  refine ⟨fun hfinite => ?_, ofText_text_of_not_finite h, fun m' hread => ?_⟩
  · rw [ofText_text_of_finite h hfinite, ← flaw?_eq_none_iff]
    cases m.flaw? with
    | none => simp
    | some reason => simp
  · obtain rfl := eq_of_ofText_text h hread
    exact ⟨rfl, rfl, fun source => ⟨rfl, rfl⟩⟩

/-- A model with a term of quotes and a line break, a negative zero, numbers at both ends of the
range, and the last nanosecond of the year 9999. -/
def extreme (threshold : Float) : Model where
  formatVersion := 1
  labels := Category.all
  threshold := threshold
  vectorizer := ⟨["\"\n\\", "naïve"], [5e-324, 1.7976931348623157e308]⟩
  units := Category.all.map fun _ => ⟨[-0.0, 0.30000000000000004], -1e-7⟩
  trainedExamples := 18446744073709551615
  trainedAt := ⟨253402300799, 999999999⟩

theorem ofBytes_text_extreme :
    ((extreme 0.1).Storable ∧ (extreme 0.1).Finite ∧ (extreme 0.1).Sound ∧
        ofBytes (extreme 0.1).text.toUTF8 = .ok (extreme 0.1)) ∧
      (extreme (0.0 / 0.0)).Storable ∧ ¬ (extreme (0.0 / 0.0)).Finite ∧
        ofBytes (extreme (0.0 / 0.0)).text.toUTF8 = .error (.json .mismatch) := by
  have hstorable : (extreme 0.1).Storable := ⟨by decide, by decide, by decide, by decide, by decide⟩
  have hfinite : (extreme 0.1).Finite := by decide +kernel
  have hsound : (extreme 0.1).Sound := (flaw?_eq_none_iff _).mp (by decide +kernel)
  have hstorable' : (extreme (0.0 / 0.0)).Storable :=
    ⟨by decide, by decide, by decide, by decide, by decide⟩
  have hnan : ¬ (extreme (0.0 / 0.0)).Finite := by decide +kernel
  exact ⟨⟨hstorable, hfinite, hsound, ((ofBytes_text hstorable).1 hfinite).1.mpr hsound⟩,
    hstorable', hnan, (ofBytes_text hstorable').2.1 hnan⟩

end Model

end DefectScan.Learning
