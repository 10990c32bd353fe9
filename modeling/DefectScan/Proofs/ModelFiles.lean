import DefectScan.Learning.ModelStore
import DefectScan.Proofs.DirectoryFiles
import Mathlib.Data.List.Induction

/-!
# Models in files

A store that keeps a file for each key writes it by way of a sibling, whose name is the key with
another extension. So a key is not on its own: a write under one key takes away what is kept under
another, if that one is the name of its sibling (`Displaced`). Otherwise the files answer as the memory
does (`files_answer_unless_displaced`).
-/

namespace DefectScan.Learning.ModelStore

/-! ## Requests -/

inductive Request
  | write (key : String) (content : ByteArray)
  | read (key : String)

def Request.key : Request → String
  | write key _ => key
  | read key => key

section
variable {σ : Type} (store : ModelStore (StateM σ)) (kept : σ)

/-- What a store finds under a key. -/
def found (key : String) : Except FileError (Option ByteArray) := ((store.read key).run kept).1

/-- What a store says to a write. -/
def verdict (key : String) (content : ByteArray) : Except FileError Unit :=
  ((store.write key content).run kept).1

/-- What a store keeps after a request. -/
def step : Request → σ
  | .write key content => ((store.write key content).run kept).2
  | .read key => ((store.read key).run kept).2

/-- What a store keeps after some requests. -/
def after (requests : List Request) : σ := requests.foldl store.step kept

theorem after_concat (requests : List Request) (r : Request) :
    store.after kept (requests ++ [r]) = store.step (store.after kept requests) r := by
  rw [after, List.foldl_concat, after]

end

/-- What the files of a directory hold after a request. -/
def leave (root : String) (held : String → Option ByteArray) : Request → String → Option ByteArray
  | .write key content => Files.left root key content held
  | .read _ => held

/-- What the files of a directory hold after some requests, where nothing was before. -/
def leaveAll (root : String) (requests : List Request) : String → Option ByteArray :=
  requests.foldl (leave root) fun _ => none

/-- What was written under a key was taken away again: by a write under another key, whose sibling has
this key for its name. -/
def Displaced (requests : List Request) (key : String) : Prop :=
  ∃ earlier other content later, requests = earlier ++ .write other content :: later ∧
    other ≠ key ∧ Files.sibling other = key ∧
    (∃ old, .write key old ∈ earlier) ∧ ∀ new, .write key new ∉ later

/-- No write is refused. -/
def Accepted (root : String) (requests : List Request) : Prop :=
  ∀ key content, .write key content ∈ requests →
    Entry.refusal? root (Files.sibling key) = none ∧ Entry.refusal? root key = none

section
variable {t : Entry} {root dir : String} {names : List String} {entries : List (String × Entry)}
  {held : String → Option ByteArray}

/-- One request leaves the tree as it was, up to the files of the directory. -/
theorem step_files (h : t.Fresh root dir names) (hholds : Entry.Holds entries held) {r : Request}
    (hplain : Path.Plain r.key) :
    ∃ entries', (files root).step (t.fill names entries) r
      = t.fill names entries' ∧ Entry.Holds entries' (leave root held r) := by
  cases r with
  | write key content =>
    have hkey : Path.Plain key := hplain
    obtain ⟨entries', hrun, hholds'⟩ := Files.run_replace h hholds hkey content
    refine ⟨entries', ?_, hholds'⟩
    show ((Files.replace _ _ : TreeM _).run _).2 = _
    rw [hrun]
  | read key =>
    have hkey : Path.Plain key := hplain
    refine ⟨entries, ?_, hholds⟩
    show ((Files.readOptional _ : TreeM _).run _).2 = _
    rw [Files.run_readOptional h hholds hkey]

theorem after_files (h : t.Fresh root dir names) (hholds : Entry.Holds entries held)
    {requests : List Request} (hplain : ∀ r ∈ requests, Path.Plain r.key) :
    ∃ entries', (files root).after (t.fill names entries) requests
      = t.fill names entries' ∧
      Entry.Holds entries' (requests.foldl (leave root) held) := by
  induction requests generalizing entries held with
  | nil => exact ⟨entries, rfl, hholds⟩
  | cons r rs ih =>
    rw [List.forall_mem_cons] at hplain
    obtain ⟨entries', hstep, hholds'⟩ := step_files h hholds hplain.1
    obtain ⟨entries'', hafter, hholds''⟩ := ih hholds' hplain.2
    refine ⟨entries'', ?_, hholds''⟩
    rw [after, List.foldl_cons, hstep]
    exact hafter

end

/-! ## Keys that are taken away -/

theorem leaveAll_concat (root : String) (requests : List Request) (r : Request) :
    leaveAll root (requests ++ [r]) = leave root (leaveAll root requests) r := by
  rw [leaveAll, List.foldl_concat, leaveAll]

theorem found_files (root : String) (kept : Entry) (key : String) : (files root).found kept key
    = ((Files.readOptional (Path.join root key) : TreeM _).run kept).1 := rfl

theorem verdict_files (root : String) (kept : Entry) (key : String) (content : ByteArray) :
    (files root).verdict kept key content
      = ((Files.replace (Path.join root key) content : TreeM _).run kept).1 := rfl

theorem found_memory (kept : Blobs) (key : String) : memory.found kept key = .ok (kept.get? key) := rfl

theorem get?_step_memory (kept : Blobs) (r : Request) (key : String) :
    (memory.step kept r).get? key = match r with
      | .write k content => if key = k then some content else kept.get? key
      | .read _ => kept.get? key := by
  cases r with
  | write k content => exact Blobs.get?_put kept k key content
  | read k => rfl

theorem displaced_concat_iff (requests : List Request) (r : Request) (key : String) :
    Displaced (requests ++ [r]) key ↔ (∀ new, r ≠ .write key new) ∧ (Displaced requests key ∨
      ∃ other content, r = .write other content ∧ Files.sibling other = key ∧
        ∃ old, .write key old ∈ requests) := by
  constructor
  · rintro ⟨earlier, other, content, later, heq, hne, hsibling, hold, hnew⟩
    rcases List.eq_nil_or_concat later with rfl | ⟨later', r', rfl⟩
    · obtain ⟨rfl, hr⟩ := List.append_inj' heq rfl
      cases hr
      exact ⟨fun new hr => hne (Request.write.inj hr).1, .inr ⟨other, content, rfl, hsibling, hold⟩⟩
    · rw [List.concat_eq_append] at heq hnew
      rw [← List.cons_append, ← List.append_assoc] at heq
      obtain ⟨rfl, hr⟩ := List.append_inj' heq rfl
      cases hr
      have hbefore : ∀ new, .write key new ∉ later' :=
        fun new hmem => hnew new (List.mem_append_left _ hmem)
      refine ⟨fun new hr => hnew new ?_,
        .inl ⟨earlier, other, content, later', rfl, hne, hsibling, hold, hbefore⟩⟩
      rw [hr]
      exact List.mem_concat_self
  · rintro ⟨hr, ⟨earlier, other, content, later, rfl, hne, hsibling, hold, hnew⟩ | hlast⟩
    · refine ⟨earlier, other, content, later ++ [r], by simp, hne, hsibling, hold, fun new hmem => ?_⟩
      rcases List.mem_append.mp hmem with hmem | hmem
      · exact hnew new hmem
      · exact hr new (List.mem_singleton.mp hmem).symm
    · obtain ⟨other, content, rfl, hsibling, hold⟩ := hlast
      have hne : other ≠ key := fun heq => hr content (by rw [heq])
      exact ⟨requests, other, content, [], rfl, hne, hsibling, hold, fun _ => List.not_mem_nil⟩

theorem isSome_memory_iff (requests : List Request) (key : String) :
    ((memory.after [] requests).get? key).isSome ↔ ∃ old, .write key old ∈ requests := by
  induction requests using List.reverseRecOn with
  | nil => simp [after, Blobs.get?]
  | append_singleton requests r ih =>
    rw [after_concat, get?_step_memory]
    cases r with
    | read k => simpa using ih
    | write k content =>
      by_cases hkey : key = k
      · subst hkey
        simp
      · simpa [hkey] using ih

theorem not_displaced_nil (key : String) : ¬ Displaced [] key := by
  rintro ⟨earlier, other, content, later, heq, -⟩
  exact absurd heq.symm (List.append_ne_nil_of_right_ne_nil _ (List.cons_ne_nil _ _))

theorem leave_write {root k : String} {content : ByteArray}
    (hsibling : Entry.refusal? root (Files.sibling k) = none) (hkey : Entry.refusal? root k = none)
    (held : String → Option ByteArray) (key : String) :
    leave root held (.write k content) key
      = if key = k then some content else if key = Files.sibling k then none else held key := by
  rw [leave, Files.left, hsibling, hkey]
  simp [Function.update_apply]

/-- Where no write is refused, a file is gone if its key is displaced, and else it holds what was
written. -/
theorem leaveAll_eq {root : String} {requests : List Request} (h : Accepted root requests)
    (key : String) :
    (Displaced requests key → leaveAll root requests key = none) ∧
    (¬ Displaced requests key → leaveAll root requests key = (memory.after [] requests).get? key) := by
  induction requests using List.reverseRecOn with
  | nil => exact ⟨fun hdisplaced => absurd hdisplaced (not_displaced_nil key), fun _ => rfl⟩
  | append_singleton requests r ih =>
    have hbefore := ih fun k content hmem => h k content (List.mem_append_left _ hmem)
    rw [displaced_concat_iff, leaveAll_concat, after_concat, get?_step_memory]
    cases r with
    | read k => simpa [leave] using hbefore
    | write k content =>
      obtain ⟨hsibling, hk⟩ := h k content (List.mem_append_right _ List.mem_cons_self)
      rw [leave_write hsibling hk]
      by_cases hkey : key = k
      · subst hkey
        simp
      · have hother : ∀ new, Request.write k content ≠ .write key new :=
          fun new heq => hkey (Request.write.inj heq).1.symm
        simp only [if_neg hkey]
        by_cases hname : key = Files.sibling k
        · rw [if_pos hname]
          refine ⟨fun _ => rfl, fun hnot => ?_⟩
          -- Nothing was there to take away.
          have hnever : ¬ ∃ old, Request.write key old ∈ requests := fun hold =>
            hnot ⟨hother, .inr ⟨k, content, rfl, hname.symm, hold⟩⟩
          rw [← isSome_memory_iff, Option.not_isSome_iff_eq_none] at hnever
          exact hnever.symm
        · rw [if_neg hname]
          refine ⟨?_, fun hnot => hbefore.2 fun hdisplaced => hnot ⟨hother, .inl hdisplaced⟩⟩
          rintro ⟨-, hdisplaced | ⟨other, _, heq, hsibling', -⟩⟩
          · exact hbefore.1 hdisplaced
          · cases heq
            exact absurd hsibling'.symm hname

/-! ## Main result -/

/-- What is found in the files of a directory after requests that began in an empty one. -/
theorem found_after_files {t : Entry} {root : String} (hfresh : t.at? root = some (.directory []))
    {before : List Request} (hplain : ∀ r ∈ before, Path.Plain r.key) {key : String}
    (hkey : Path.Plain key) :
    (files root).found ((files root).after t before) key
      = (Entry.refusal? root key).elim (.ok (leaveAll root before key)) .error := by
  obtain ⟨dir, names, hdir⟩ := Entry.exists_fresh hfresh
  obtain ⟨entries, hafter, hholds⟩ := after_files hdir Entry.holds_nil hplain
  rw [Entry.fill_self hdir.empty] at hafter
  rw [hafter, found_files, Files.run_readOptional hdir hholds hkey, leaveAll]

theorem verdict_after_files {t : Entry} {root : String} (hfresh : t.at? root = some (.directory []))
    {before : List Request} (hplain : ∀ r ∈ before, Path.Plain r.key) {key : String}
    (hkey : Path.Plain key) (content : ByteArray) :
    (files root).verdict ((files root).after t before) key content
      = ((Entry.refusal? root (Files.sibling key)).or (Entry.refusal? root key)).elim
        (.ok ()) .error := by
  obtain ⟨dir, names, hdir⟩ := Entry.exists_fresh hfresh
  obtain ⟨entries, hafter, hholds⟩ := after_files hdir Entry.holds_nil hplain
  rw [Entry.fill_self hdir.empty] at hafter
  obtain ⟨entries', hrun, -⟩ := Files.run_replace hdir hholds hkey content
  rw [hafter, verdict_files, hrun]

/-- After any requests that began in an empty directory: a key whose name can be a file's is found as
in memory, unless it was displaced; then nothing is found. A read and a write fail only for names that
no file can have. -/
theorem files_answer_unless_displaced {t : Entry} {root : String}
    (hfresh : t.at? root = some (.directory [])) {before : List Request}
    (hplain : ∀ r ∈ before, Path.Plain r.key) :
    (∀ key, Path.Plain key →
      (files root).found ((files root).after t before) key
        = (Entry.refusal? root key).elim (.ok (leaveAll root before key)) .error) ∧
    (∀ key content, Path.Plain key →
      (files root).verdict ((files root).after t before) key content
        = ((Entry.refusal? root (Files.sibling key)).or (Entry.refusal? root key)).elim
          (.ok ()) .error) ∧
    (Accepted root before → ∀ key, Path.Plain key → Entry.refusal? root key = none →
      (Displaced before key → (files root).found ((files root).after t before) key = .ok none ∧
        ∃ content, memory.found (memory.after [] before) key = .ok (some content)) ∧
      (¬ Displaced before key → (files root).found ((files root).after t before) key
        = memory.found (memory.after [] before) key)) := by
  refine ⟨fun key hkey => found_after_files hfresh hplain hkey,
    fun key content hkey => verdict_after_files hfresh hplain hkey content,
    fun haccepted key hkey hrefusal => ?_⟩
  rw [found_after_files hfresh hplain hkey, hrefusal, Option.elim_none, found_memory]
  have hleave := leaveAll_eq haccepted key
  refine ⟨fun hdisplaced => ⟨congrArg Except.ok (hleave.1 hdisplaced), ?_⟩,
    fun hdisplaced => congrArg Except.ok (hleave.2 hdisplaced)⟩
  obtain ⟨earlier, _, _, _, rfl, -, -, ⟨old, hold⟩, -⟩ := hdisplaced
  obtain ⟨content, hcontent⟩ := Option.isSome_iff_exists.mp
    ((isSome_memory_iff _ key).mpr ⟨old, List.mem_append_left _ hold⟩)
  exact ⟨content, by rw [hcontent]⟩

/-- An empty directory and a link to it. -/
def workspace : Entry := .directory [("ws", .directory []), ("models", .link "./ws/")]

/-- A key, then one whose sibling has this key for its name. -/
def clash : List Request := [.write "m.tmp" "a".toUTF8, .write "m.json" "b".toUTF8, .read "m.json"]

theorem plain_clash : ∀ r ∈ clash, Path.Plain r.key := by decide +kernel

theorem displaced_clash : Displaced clash "m.tmp" :=
  ⟨[.write "m.tmp" "a".toUTF8], "m.json", "b".toUTF8, [.read "m.json"], rfl, by decide,
    by decide +kernel, ⟨"a".toUTF8, List.mem_cons_self⟩, fun _ hmem => by simp at hmem⟩

theorem accepted_clash : Accepted "/models" clash := by
  intro key content hmem
  have hkey : key = "m.tmp" ∨ key = "m.json" := by
    simp only [clash, List.mem_cons, Request.write.injEq, reduceCtorEq, List.not_mem_nil,
      or_false] at hmem
    exact hmem.imp And.left And.left
  rcases hkey with rfl | rfl
  · decide +kernel
  · decide +kernel

theorem files_answer_clash :
    workspace.at? "/models" = some (.directory []) ∧ (∀ r ∈ clash, Path.Plain r.key) ∧
      (files "/models").found ((files "/models").after workspace clash) "m.tmp" = .ok none := by
  have hfresh : workspace.at? "/models" = some (.directory []) := by rfl
  have hanswer := (files_answer_unless_displaced hfresh plain_clash).2.2 accepted_clash "m.tmp"
    (by decide +kernel) (by decide +kernel)
  exact ⟨hfresh, plain_clash, (hanswer.1 displaced_clash).1⟩

theorem found_files_ne_found_memory :
    (files "/models").found ((files "/models").after workspace clash) "m.tmp"
      ≠ memory.found (memory.after [] clash) "m.tmp" := by
  have hfresh : workspace.at? "/models" = some (.directory []) := by rfl
  have hrefusal : Entry.refusal? "/models" "m.tmp" = none := by decide +kernel
  rw [found_after_files hfresh plain_clash (by decide +kernel), hrefusal,
    (leaveAll_eq accepted_clash "m.tmp").1 displaced_clash]
  exact fun heq => nomatch heq

end DefectScan.Learning.ModelStore
