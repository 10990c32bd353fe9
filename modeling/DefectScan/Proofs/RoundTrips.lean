import DefectScan.Codec.Settings
import DefectScan.Proofs.ActiveThreshold

/-!
# Values that are read and written again

A value is read back from its own text as it is, if its numbers have a text and its lines and counts
fit into their words:

    ok x                          →  decode (encode x) = x
    decode text = x               →  ok x

The second law is one on decoders (`Yields`): whatever document they are given, in any order of its
fields, as an array, with fields that are left out, they give only such values. So what was read from
any text at all is read back from the text that is written for it.
-/

namespace DefectScan

open Json (Decoder Doc docOf decodeText)
open Json.Decode
open Learning (exists_of_bind_ok)

/-! ## What decoders give -/

namespace Json.Decode

/-- Whatever a decoder gives has a property. -/
def Yields {α : Type} (decode : Decoder α) (p : α → Prop) : Prop :=
  ∀ d x, decode d = .ok x → p x

theorem yields_float : Yields float (·.isFinite = true) := fun _ _ h => isFinite_of_float h

theorem yields_count : Yields count (· < countLimit) := by
  intro d n h
  unfold count at h
  split at h
  · split at h
    · next hcount =>
      cases h
      simp only [Bool.and_eq_true, decide_eq_true_eq] at hcount
      exact hcount.2
    · cases h
  · cases h

theorem yields_optional {α : Type} {decode : Decoder α} {p : α → Prop} (h : Yields decode p) :
    Yields (optional decode) (fun x => ∀ y ∈ x, p y) := by
  intro d x hx
  unfold optional at hx
  split at hx
  · cases hx
    nofun
  · cases hdecode : decode d with
    | error f =>
      rw [hdecode] at hx
      cases hx
    | ok y =>
      rw [hdecode] at hx
      cases hx
      rintro _ ⟨⟩
      exact h d y hdecode

theorem yields_items {α : Type} {decode : Decoder α} {p : α → Prop} (h : Yields decode p) :
    ∀ (ds : List Doc) (xs : List α), items decode ds = .ok xs → ∀ x ∈ xs, p x
  | [], xs, hxs => by
    cases hxs
    nofun
  | d :: ds, xs, hxs => by
    rw [items] at hxs
    obtain ⟨x, hx, hxs⟩ := exists_of_bind_ok hxs
    obtain ⟨xs', hxs', hxs⟩ := exists_of_bind_ok hxs
    cases hxs
    exact List.forall_mem_cons.mpr ⟨h d x hx, yields_items h ds xs' hxs'⟩

theorem yields_list {α : Type} {decode : Decoder α} {p : α → Prop} (h : Yields decode p) :
    Yields (list decode) (fun xs => ∀ x ∈ xs, p x) := by
  intro d xs hxs
  unfold list at hxs
  split at hxs
  · next ds stop =>
    obtain ⟨xs', hitems, hxs⟩ := exists_of_bind_ok hxs
    split at hxs
    · cases hxs
    · cases hxs
      exact yields_items h ds xs hitems
  · cases hxs

theorem Yields.of_field {α : Type} {decode : Decoder α} {p : α → Prop} (h : Yields decode p)
    {r : List (String × Doc)} {name : String} {x : α} (hx : field r name decode = .ok x) : p x := by
  unfold field at hx
  split at hx
  · exact h _ _ hx
  · cases hx

theorem Yields.of_fieldOr {α : Type} {decode : Decoder α} {p : α → Prop} (h : Yields decode p)
    {r : List (String × Doc)} {name : String} {other x : α}
    (hx : fieldOr r name decode other = .ok x) (hother : p other) : p x := by
  unfold fieldOr at hx
  split at hx
  · exact h _ _ hx
  · cases hx
    exact hother

theorem Yields.of_decodeText {α : Type} {decode : Decoder α} {p : α → Prop} (h : Yields decode p)
    {text : List Char} {x : α} (hx : decodeText decode text = .ok x) : p x := by
  unfold decodeText at hx
  split at hx
  split at hx
  · cases hx
  · next y hy =>
    split at hx
    · split at hx
      · cases hx
        exact h _ _ hy
      · cases hx
    · cases hx

/-! ## Values with a text -/

/-- Values for which `ok` holds are read back from their text, and so is any value that was read from
some text. -/
structure RoundTrips {α : Type} (encode : α → Json) (decode : Decoder α) (ok : α → Prop) : Prop where
  recovered : ∀ x, ok x → decodeText decode (encode x).compact.toList = .ok x
  stable : ∀ text x, decodeText decode text = .ok x →
    decodeText decode (encode x).compact.toList = .ok x

theorem roundTrips {α : Type} {encode : α → Json} {decode : Decoder α} {ok : α → Prop}
    (hwritten : ∀ x, ok x → decode (docOf (encode x)) = .ok x) (hyields : Yields decode ok) :
    RoundTrips encode decode ok := by
  have hrecovered : ∀ x, ok x → decodeText decode (encode x).compact.toList = .ok x := by
    intro x hx
    rw [Json.decodeText_compact, hwritten x hx]
  exact ⟨hrecovered, fun text x hx => hrecovered x (hyields.of_decodeText hx)⟩

theorem written_bool (b : Bool) : Written bool (.bool b) b True := .of_ok rfl

theorem written_some_float {x : Float} (h : x.isFinite = true) :
    Written (optional float) (.real x) (some x) True := by
  have hfloat := (written_float x).accepted h
  refine .of_ok ?_
  rw [docOf, if_pos h] at hfloat ⊢
  rw [optional, hfloat]
  · rfl
  · nofun

end Json.Decode

/-! ## Findings, fixes and examples -/

/-- The line fits into a word, and the confidence is a number that has a text. -/
structure Finding.Representable (f : Finding) : Prop where
  line_lt : f.line < countLimit
  confidence_finite : ∀ x ∈ f.confidence, x.isFinite = true

def Fix.Representable (f : Fix) : Prop := f.line < countLimit

/-- The labels are a set: in order and without repeats. -/
def Example.Representable (e : Example) : Prop := Category.inOrder e.labels = e.labels

namespace Finding

theorem decode_encode {f : Finding} (h : f.Representable) : decode (docOf f.encode) = .ok f := by
  obtain ⟨category, line, description, severity, confidence, detector⟩ := f
  have hcategory := Learning.written_category category
  have hline := written_count h.line_lt
  have hdescription := written_string description
  have hseverity : Written Severity.decode severity.encode severity True :=
    written_name (Severity.ofName?_name severity)
  have hdetector : Written DetectorKind.decode detector.encode detector True :=
    written_name (DetectorKind.ofName?_name detector)
  cases confidence with
  | none =>
    have hcovers : Covers ["category", "line", "description", "severity", "detector"] fields :=
      ⟨by decide, by decide, by decide⟩
    have hrecord : Written decode (encode ⟨category, line, description, severity, none, detector⟩)
        ⟨category, line, description, severity, none, detector⟩ _ :=
      written_record hcovers rfl (.cons (hcategory.part rfl) (.cons (hline.part rfl)
        (.cons (hdescription.part rfl) (.cons (hseverity.part rfl) (.cons (hdetector.part rfl) .nil)))))
        fun _ => bind_of_ok (hcategory.accepted trivial) (bind_of_ok (hline.accepted trivial)
          (bind_of_ok (hdescription.accepted trivial) (bind_of_ok (hseverity.accepted trivial)
          (bind_of_ok rfl (bind_of_ok (hdetector.accepted trivial) rfl)))))
    exact hrecord.accepted (by simp)
  | some x =>
    have hconfidence := written_some_float (h.confidence_finite x rfl)
    have hcovers : Covers ["category", "line", "description", "severity", "confidence", "detector"]
        fields := ⟨by decide, by decide, by decide⟩
    have hrecord : Written decode (encode ⟨category, line, description, severity, some x, detector⟩)
        ⟨category, line, description, severity, some x, detector⟩ _ :=
      written_record hcovers rfl (.cons (hcategory.part rfl) (.cons (hline.part rfl)
        (.cons (hdescription.part rfl) (.cons (hseverity.part rfl) (.cons (hconfidence.part rfl)
        (.cons (hdetector.part rfl) .nil))))))
        fun _ => bind_of_ok (hcategory.accepted trivial) (bind_of_ok (hline.accepted trivial)
          (bind_of_ok (hdescription.accepted trivial) (bind_of_ok (hseverity.accepted trivial)
          (bind_of_ok (hconfidence.accepted trivial) (bind_of_ok (hdetector.accepted trivial) rfl)))))
    exact hrecord.accepted (by simp)

theorem yields_decode : Yields decode Representable := by
  intro d f h
  unfold decode at h
  obtain ⟨r, -, h⟩ := exists_of_bind_ok h
  obtain ⟨category, -, h⟩ := exists_of_bind_ok h
  obtain ⟨line, hline, h⟩ := exists_of_bind_ok h
  obtain ⟨description, -, h⟩ := exists_of_bind_ok h
  obtain ⟨severity, -, h⟩ := exists_of_bind_ok h
  obtain ⟨confidence, hconfidence, h⟩ := exists_of_bind_ok h
  obtain ⟨detector, -, h⟩ := exists_of_bind_ok h
  cases h
  exact ⟨yields_count.of_field hline, (yields_optional yields_float).of_fieldOr hconfidence nofun⟩

end Finding

namespace Fix

theorem decode_encode {f : Fix} (h : f.Representable) : decode (docOf f.encode) = .ok f := by
  have hcategory := Learning.written_category f.category
  have hline := written_count h
  have hcurrent := written_string f.currentText
  have hreplacement := written_string f.replacementText
  have hedit : Written Edit.decode f.edit.encode f.edit True := written_name (Edit.ofName?_name f.edit)
  have hnote := written_string f.note
  have hcovers : Covers ["category", "applies_to_line", "original_text", "replacement_text", "edit",
      "note"] fields := ⟨by decide, by decide, by decide⟩
  have hrecord : Written decode f.encode f _ :=
    written_record hcovers rfl (.cons (hcategory.part rfl) (.cons (hline.part rfl)
      (.cons (hcurrent.part rfl) (.cons (hreplacement.part rfl) (.cons (hedit.part rfl)
      (.cons (hnote.part rfl) .nil))))))
      fun _ => bind_of_ok (hcategory.accepted trivial) (bind_of_ok (hline.accepted trivial)
        (bind_of_ok (hcurrent.accepted trivial) (bind_of_ok (hreplacement.accepted trivial)
        (bind_of_ok (hedit.accepted trivial) (bind_of_ok (hnote.accepted trivial) rfl)))))
  exact hrecord.accepted (by simp)

theorem yields_decode : Yields decode Representable := by
  intro d f h
  unfold decode at h
  obtain ⟨r, -, h⟩ := exists_of_bind_ok h
  obtain ⟨category, -, h⟩ := exists_of_bind_ok h
  obtain ⟨line, hline, h⟩ := exists_of_bind_ok h
  obtain ⟨current, -, h⟩ := exists_of_bind_ok h
  obtain ⟨replacement, -, h⟩ := exists_of_bind_ok h
  obtain ⟨edit, -, h⟩ := exists_of_bind_ok h
  obtain ⟨note, -, h⟩ := exists_of_bind_ok h
  cases h
  exact yields_count.of_field hline

end Fix

theorem Category.inOrder_inOrder (cs : List Category) : inOrder (inOrder cs) = inOrder cs := by
  unfold inOrder
  refine List.filter_congr fun c _ => ?_
  simp [mem_all]

namespace Example

theorem decode_encode {e : Example} (h : e.Representable) : decode (docOf e.encode) = .ok e := by
  have hsource := written_string e.sourceText
  have hlabels : Written (list Category.decode) (.arr (e.labels.map Category.encode)) e.labels
      (∀ c ∈ e.labels, True) :=
    written_list fun c _ => Learning.written_category c
  have hcovers : Covers ["source_text", "labels"] fields := ⟨by decide, by decide, by decide⟩
  have hsame : labelled e.sourceText e.labels = e := by
    rw [labelled, h]
  have hrecord : Written decode e.encode e _ :=
    written_record hcovers rfl (.cons (hsource.part rfl) (.cons (hlabels.part rfl) .nil))
      fun ⟨_, hlabel, _⟩ => bind_of_ok (hsource.accepted trivial)
        (bind_of_ok (hlabels.accepted hlabel) (congrArg Except.ok hsame))
  exact hrecord.accepted (by simp)

theorem yields_decode : Yields decode Representable := by
  intro d e h
  unfold decode at h
  obtain ⟨r, -, h⟩ := exists_of_bind_ok h
  obtain ⟨source, -, h⟩ := exists_of_bind_ok h
  obtain ⟨labels, -, h⟩ := exists_of_bind_ok h
  cases h
  exact Category.inOrder_inOrder labels

end Example

/-! ## Settings -/

/-- The counts fit into their words, and the numbers have a text. -/
structure ClassifierSettings.Representable (s : ClassifierSettings) : Prop where
  maxFeatures_lt : s.maxFeatures < countLimit
  epochs_lt : s.epochs < countLimit
  learningRate_finite : s.learningRate.isFinite = true
  l2Penalty_finite : s.l2Penalty.isFinite = true
  threshold_finite : s.threshold.isFinite = true

def Settings.Representable (s : Settings) : Prop := s.classifier.Representable

theorem written_detectionSettings (s : DetectionSettings) :
    Written DetectionSettings.decode s.encode s True := by
  have hlexical := written_bool s.lexical
  have hstructural := written_bool s.structural
  have hclassifier := written_bool s.classifier
  have hparallel := written_bool s.parallel
  have hcovers : Covers ["lexical", "structural", "classifier", "parallel"] DetectionSettings.fields :=
    ⟨by decide, by decide, by decide⟩
  have hrecord : Written DetectionSettings.decode s.encode s _ :=
    written_record hcovers rfl (.cons (hlexical.part rfl) (.cons (hstructural.part rfl)
      (.cons (hclassifier.part rfl) (.cons (hparallel.part rfl) .nil))))
      fun _ => bind_of_ok (hlexical.accepted trivial) (bind_of_ok (hstructural.accepted trivial)
        (bind_of_ok (hclassifier.accepted trivial) (bind_of_ok (hparallel.accepted trivial) rfl)))
  exact hrecord.congr (by simp)

theorem written_classifierSettings {s : ClassifierSettings} (h : s.Representable) :
    Written ClassifierSettings.decode s.encode s True := by
  have hfeatures := written_count h.maxFeatures_lt
  have hepochs := written_count h.epochs_lt
  have hrate := (written_float s.learningRate).congr (iff_of_true trivial h.learningRate_finite)
  have hpenalty := (written_float s.l2Penalty).congr (iff_of_true trivial h.l2Penalty_finite)
  have hthreshold := (written_float s.threshold).congr (iff_of_true trivial h.threshold_finite)
  have hpath := written_string s.modelPath
  have hcovers : Covers ["max_features", "epochs", "learning_rate", "l2_penalty", "threshold",
      "model_path"] ClassifierSettings.fields := ⟨by decide, by decide, by decide⟩
  have hrecord : Written ClassifierSettings.decode s.encode s _ :=
    written_record hcovers rfl (.cons (hfeatures.part rfl) (.cons (hepochs.part rfl)
      (.cons (hrate.part rfl) (.cons (hpenalty.part rfl) (.cons (hthreshold.part rfl)
      (.cons (hpath.part rfl) .nil))))))
      fun _ => bind_of_ok (hfeatures.accepted trivial) (bind_of_ok (hepochs.accepted trivial)
        (bind_of_ok (hrate.accepted trivial) (bind_of_ok (hpenalty.accepted trivial)
        (bind_of_ok (hthreshold.accepted trivial) (bind_of_ok (hpath.accepted trivial) rfl)))))
  exact hrecord.congr (by simp)

theorem written_storageSettings (s : StorageSettings) :
    Written StorageSettings.decode s.encode s True := by
  have henabled := written_bool s.enabled
  have hpath := written_string s.databasePath
  have hcovers : Covers ["enabled", "database_path"] StorageSettings.fields :=
    ⟨by decide, by decide, by decide⟩
  have hrecord : Written StorageSettings.decode s.encode s _ :=
    written_record hcovers rfl (.cons (henabled.part rfl) (.cons (hpath.part rfl) .nil))
      fun _ => bind_of_ok (henabled.accepted trivial) (bind_of_ok (hpath.accepted trivial) rfl)
  exact hrecord.congr (by simp)

theorem representable_default : ({} : ClassifierSettings).Representable :=
  ⟨by decide, by decide, rfl, rfl, rfl⟩

theorem yields_classifierSettings : Yields ClassifierSettings.decode ClassifierSettings.Representable := by
  intro d s h
  unfold ClassifierSettings.decode at h
  obtain ⟨r, -, h⟩ := exists_of_bind_ok h
  obtain ⟨features, hfeatures, h⟩ := exists_of_bind_ok h
  obtain ⟨epochs, hepochs, h⟩ := exists_of_bind_ok h
  obtain ⟨rate, hrate, h⟩ := exists_of_bind_ok h
  obtain ⟨penalty, hpenalty, h⟩ := exists_of_bind_ok h
  obtain ⟨threshold, hthreshold, h⟩ := exists_of_bind_ok h
  obtain ⟨path, -, h⟩ := exists_of_bind_ok h
  cases h
  have other := representable_default
  exact ⟨yields_count.of_fieldOr hfeatures other.maxFeatures_lt,
    yields_count.of_fieldOr hepochs other.epochs_lt,
    yields_float.of_fieldOr hrate other.learningRate_finite,
    yields_float.of_fieldOr hpenalty other.l2Penalty_finite,
    yields_float.of_fieldOr hthreshold other.threshold_finite⟩

namespace Settings

theorem decode_encode {s : Settings} (h : s.Representable) : decode (docOf s.encode) = .ok s := by
  have hdetection := written_detectionSettings s.detection
  have hclassifier := written_classifierSettings h
  have hstorage := written_storageSettings s.storage
  have hcovers : Covers ["detection", "classifier", "storage"] fields :=
    ⟨by decide, by decide, by decide⟩
  have hrecord : Written decode s.encode s _ :=
    written_record hcovers rfl (.cons (hdetection.part rfl) (.cons (hclassifier.part rfl)
      (.cons (hstorage.part rfl) .nil)))
      fun _ => bind_of_ok (hdetection.accepted trivial) (bind_of_ok (hclassifier.accepted trivial)
        (bind_of_ok (hstorage.accepted trivial) rfl))
  exact hrecord.accepted (by simp)

theorem yields_decode : Yields decode Representable := by
  intro d s h
  unfold decode at h
  obtain ⟨r, -, h⟩ := exists_of_bind_ok h
  obtain ⟨detection, -, h⟩ := exists_of_bind_ok h
  obtain ⟨classifier, hclassifier, h⟩ := exists_of_bind_ok h
  obtain ⟨storage, -, h⟩ := exists_of_bind_ok h
  cases h
  exact yields_classifierSettings.of_fieldOr hclassifier representable_default

end Settings

/-! ## Vectorizers and units -/

namespace Learning

theorem yields_vectorizer : Yields Vectorizer.decode Vectorizer.Finite := by
  intro d v h
  unfold Vectorizer.decode at h
  obtain ⟨r, -, h⟩ := exists_of_bind_ok h
  obtain ⟨terms, -, h⟩ := exists_of_bind_ok h
  obtain ⟨idf, hidf, h⟩ := exists_of_bind_ok h
  cases h
  exact (yields_list yields_float).of_field hidf

theorem yields_unit : Yields LogisticUnit.decode LogisticUnit.Finite := by
  intro d u h
  unfold LogisticUnit.decode at h
  obtain ⟨r, -, h⟩ := exists_of_bind_ok h
  obtain ⟨weights, hweights, h⟩ := exists_of_bind_ok h
  obtain ⟨bias, hbias, h⟩ := exists_of_bind_ok h
  cases h
  exact ⟨(yields_list yields_float).of_field hweights, yields_float.of_field hbias⟩

end Learning

/-! ## Main result -/

/-- Findings, fixes, examples, settings, vectorizers and units are read back from their compact text
if their numbers are finite and fit, and whatever text a value was read from, it is read back from its
own. -/
theorem records_roundTrip :
    RoundTrips Finding.encode Finding.decode Finding.Representable ∧
      RoundTrips Fix.encode Fix.decode Fix.Representable ∧
      RoundTrips Example.encode Example.decode Example.Representable ∧
      RoundTrips Settings.encode Settings.decode Settings.Representable ∧
      RoundTrips Learning.Vectorizer.encode Learning.Vectorizer.decode Learning.Vectorizer.Finite ∧
      RoundTrips Learning.LogisticUnit.encode Learning.LogisticUnit.decode
        Learning.LogisticUnit.Finite :=
  ⟨roundTrips (fun _ => Finding.decode_encode) Finding.yields_decode,
    roundTrips (fun _ => Fix.decode_encode) Fix.yields_decode,
    roundTrips (fun _ => Example.decode_encode) Example.yields_decode,
    roundTrips (fun _ => Settings.decode_encode) Settings.yields_decode,
    roundTrips (fun v => (Learning.written_vectorizer v).accepted) Learning.yields_vectorizer,
    roundTrips (fun u => (Learning.written_unit u).accepted) Learning.yields_unit⟩

/-- Written as an array, with an escape, and with a label that stands twice, once as an object. -/
def oddText : List Char :=
  "[\"\\u0022\", [\x7b\"syntax_error\": null\x7d, \"memory_leak\", \"syntax_error\"]]".toList

theorem records_roundTrip_odd :
    decodeText Example.decode oddText = .ok ⟨"\"", [.memoryLeak, .syntaxError]⟩ ∧
      decodeText Example.decode (Example.encode ⟨"\"", [.memoryLeak, .syntaxError]⟩).compact.toList
        = .ok ⟨"\"", [.memoryLeak, .syntaxError]⟩ := by
  have hread : decodeText Example.decode oddText = .ok ⟨"\"", [.memoryLeak, .syntaxError]⟩ := by
    decide +kernel
  exact ⟨hread, records_roundTrip.2.2.1.stable _ _ hread⟩

end DefectScan
