import DefectScan.Proofs.JsonText

/-!
# Decoders of written values

What a decoder makes of the text of a value is known from the value (`Written`): it gives the value
back, or, where a number of it has no text, refuses the text as one of another shape. Lists and
records hand this on from their parts:

    list decode [e₁, …, eₙ]                 gives back a list if it does so for every item
    record fields {k₁ : e₁, …, kₙ : eₙ}     has the first fault of its members, in their order
-/

namespace DefectScan.Json.Decode

/-- A decoder reads the text of `j` as `x` where `ok` holds, and refuses it elsewhere. -/
structure Written {α : Type} (decode : Decoder α) (j : Json) (x : α) (ok : Prop) : Prop where
  accepted : ok → decode (docOf j) = .ok x
  refused : ¬ ok → decode (docOf j) = .error .mismatch

theorem Written.of_ok {α : Type} {decode : Decoder α} {j : Json} {x : α}
    (h : decode (docOf j) = .ok x) : Written decode j x True :=
  ⟨fun _ => h, fun hno => absurd trivial hno⟩

/-! ## Single values -/

theorem written_string (s : String) : Written string (.str s) s True := .of_ok rfl

theorem written_name {α : Type} {ofName? : String → Option α} {s : String} {x : α}
    (h : ofName? s = some x) : Written (name ofName?) (.str s) x True := by
  refine .of_ok ?_
  show name.named ofName? (some s) = .ok x
  simp only [name.named, h]

theorem written_count {n : ℕ} (h : n < countLimit) : Written count (.int n) n True := by
  refine .of_ok ?_
  rw [docOf, count]
  exact if_pos (by simpa using h)

theorem written_float (x : Float) : Written float (.real x) x (x.isFinite = true) := by
  constructor
  · intro hx
    have hread := toFloat_decimalOf hx
    rw [docOf, if_pos hx]
    simp only [float, Numeral.toFloat?, hread, hx, if_true]
  · intro hx
    rw [docOf, if_neg hx]
    rfl

/-! ## Lists -/

theorem items_written {α : Type} {decode : Decoder α} {encode : α → Json} {ok : α → Prop}
    {xs : List α} (h : ∀ x ∈ xs, Written decode (encode x) x (ok x)) :
    ((∀ x ∈ xs, ok x) → items decode (xs.map (docOf ∘ encode)) = .ok xs) ∧
      (¬ (∀ x ∈ xs, ok x) → items decode (xs.map (docOf ∘ encode)) = .error .mismatch) := by
  induction xs with
  | nil => exact ⟨fun _ => rfl, fun hno => absurd (by simp) hno⟩
  | cons x xs ih =>
    obtain ⟨hall, hsome⟩ := ih fun y hy => h y (List.mem_cons_of_mem x hy)
    have hx := h x List.mem_cons_self
    rw [List.forall_mem_cons, List.map_cons, Function.comp_apply, items]
    constructor
    · rintro ⟨hok, hoks⟩
      rw [hx.accepted hok, hall hoks]
      rfl
    · intro hno
      by_cases hok : ok x
      · rw [hx.accepted hok, hsome fun hoks => hno ⟨hok, hoks⟩]
        rfl
      · rw [hx.refused hok]
        rfl

theorem written_list {α : Type} {decode : Decoder α} {encode : α → Json} {ok : α → Prop}
    {xs : List α} (h : ∀ x ∈ xs, Written decode (encode x) x (ok x)) :
    Written (list decode) (.arr (xs.map encode)) xs (∀ x ∈ xs, ok x) := by
  obtain ⟨hall, hsome⟩ := items_written h
  have hdoc : docOf (.arr (xs.map encode)) = .arr (xs.map (docOf ∘ encode)) none := by
    rw [docOf, docsOf_eq_map, List.map_map]
  constructor
  · intro hok
    rw [hdoc, list, hall hok]
    rfl
  · intro hno
    rw [hdoc, list, hsome hno]
    rfl

/-! ## Records -/

/-- The names of the members of a written record: each is a field, none stands twice, and the fields
that must not be absent are there. -/
structure Covers (names : List String) (fields : List Field) : Prop where
  nodup : names.Nodup
  known : ∀ key ∈ names, (fields.find? (·.name = key)).isSome
  complete : ∀ f ∈ fields, (f.optional || names.contains f.name) = true

/-- The fault of a member of a record. -/
def faultOf (fields : List Field) (member : String × Json) : Option Fault :=
  (fields.find? (·.name = member.1)).bind fun f => f.fault? (docOf member.2)

theorem memberFault_written {fields : List Field} {members : List (String × Json)}
    {seen : List String} (hnodup : (seen.reverse ++ members.map Prod.fst).Nodup)
    (hknown : ∀ e ∈ members, (fields.find? (·.name = e.1)).isSome)
    (hcomplete : ∀ f ∈ fields,
      (f.optional || (seen.reverse ++ members.map Prod.fst).contains f.name) = true) :
    memberFault fields (memberDocsOf members) seen none = members.findSome? (faultOf fields) := by
  induction members generalizing seen with
  | nil =>
    rw [memberDocsOf, memberFault, List.findSome?_nil]
    refine if_pos (List.all_eq_true.mpr ?_)
    intro f hf
    simpa using hcomplete f hf
  | cons e members ih =>
    obtain ⟨key, j⟩ := e
    obtain ⟨f, hfind⟩ := Option.isSome_iff_exists.mp (hknown (key, j) List.mem_cons_self)
    have hnew : key ∉ seen := by
      intro hseen
      rw [List.nodup_append] at hnodup
      exact hnodup.2.2 key (List.mem_reverse.mpr hseen) key List.mem_cons_self rfl
    have hrest := @ih (key :: seen) (by simpa using hnodup)
      (fun e he => hknown e (List.mem_cons_of_mem _ he)) (by simpa using hcomplete)
    have hfault : faultOf fields (key, j) = f.fault? (docOf j) := by
      unfold faultOf
      rw [hfind]
      rfl
    rw [memberDocsOf, memberFault, hfind, List.findSome?_cons, hfault]
    dsimp only
    rw [if_neg (by simpa using hnew), hrest]
    cases f.fault? (docOf j) <;> rfl

theorem memberDocs_eq (members : List (String × Json)) :
    (memberDocsOf members).filterMap (fun (key, d) => key.map fun k => (k, d))
      = members.map fun e => (e.1, docOf e.2) := by
  induction members with
  | nil => rfl
  | cons e members ih => rw [memberDocsOf, List.filterMap_cons, ih]; rfl

theorem record_written {fields : List Field} {members : List (String × Json)}
    (h : Covers (members.map Prod.fst) fields) :
    record fields (docOf (.obj members)) =
      match members.findSome? (faultOf fields) with
      | some f => .error f
      | none => .ok (members.map fun e => (e.1, docOf e.2)) := by
  have hfault : memberFault fields (memberDocsOf members) [] none
      = members.findSome? (faultOf fields) := by
    refine memberFault_written h.nodup ?_ h.complete
    intro e he
    exact h.known e.1 (List.mem_map_of_mem he)
  rw [docOf, record, hfault]
  cases members.findSome? (faultOf fields) with
  | some f => rfl
  | none => exact congrArg Except.ok (memberDocs_eq members)

/-- A member of a record has no fault where `ok` holds, and is refused elsewhere. -/
structure Part (fields : List Field) (e : String × Json) (ok : Prop) : Prop where
  accepted : ok → faultOf fields e = none
  refused : ¬ ok → faultOf fields e = some .mismatch

theorem Written.part {α : Type} {decode : Decoder α} {j : Json} {x : α} {ok : Prop}
    (h : Written decode j x ok) {fields : List Field} {key : String}
    (hfield : (fields.find? (·.name = key)).map Field.fault? = some decode.fault?) :
    Part fields (key, j) ok := by
  have hfault : faultOf fields (key, j) = decode.fault? (docOf j) := by
    obtain ⟨f, hfind, hf⟩ := Option.map_eq_some_iff.mp hfield
    unfold faultOf
    rw [hfind, ← hf]
    rfl
  constructor
  · intro hok
    rw [hfault, Decoder.fault?, h.accepted hok]
  · intro hno
    rw [hfault, Decoder.fault?, h.refused hno]

theorem findSome?_parts {fields : List Field} {members : List (String × Json)} {oks : List Prop}
    (h : List.Forall₂ (Part fields) members oks) :
    (oks.foldr And True → members.findSome? (faultOf fields) = none) ∧
      (¬ oks.foldr And True → members.findSome? (faultOf fields) = some .mismatch) := by
  induction h with
  | nil => exact ⟨fun _ => rfl, fun hno => absurd trivial hno⟩
  | @cons e ok members oks hpart hparts ih =>
    obtain ⟨hall, hsome⟩ := ih
    rw [List.foldr_cons, List.findSome?_cons]
    constructor
    · rintro ⟨hok, hoks⟩
      rw [hpart.accepted hok, hall hoks]
    · intro hno
      by_cases hok : ok
      · rw [hpart.accepted hok, hsome fun hoks => hno ⟨hok, hoks⟩]
      · rw [hpart.refused hok]

/-- A record is read back if all of its members are. -/
theorem written_record {α : Type} {fields : List Field} {members : List (String × Json)}
    {names : List String} {oks : List Prop} {build : List (String × Doc) → Except Fault α} {x : α}
    (hcovers : Covers names fields) (hnames : members.map Prod.fst = names)
    (hparts : List.Forall₂ (Part fields) members oks)
    (hbuild : oks.foldr And True → build (members.map fun e => (e.1, docOf e.2)) = .ok x) :
    Written (fun d => record fields d >>= build) (.obj members) x (oks.foldr And True) := by
  obtain ⟨hall, hsome⟩ := findSome?_parts hparts
  subst hnames
  constructor
  · intro hoks
    rw [record_written hcovers, hall hoks]
    exact hbuild hoks
  · intro hno
    rw [record_written hcovers, hsome hno]
    rfl

theorem Written.congr {α : Type} {decode : Decoder α} {j : Json} {x : α} {ok ok' : Prop}
    (h : Written decode j x ok) (hok : ok' ↔ ok) : Written decode j x ok' :=
  ⟨fun hyes => h.accepted (hok.mp hyes), fun hno => h.refused fun hyes => hno (hok.mpr hyes)⟩

theorem bind_of_ok {α β : Type} {e : Except Fault α} {a : α} {f : α → Except Fault β}
    {r : Except Fault β} (he : e = .ok a) (hf : f a = r) : e >>= f = r := by
  rw [he]
  exact hf

end DefectScan.Json.Decode
