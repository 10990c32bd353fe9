import DefectScan.Proofs.TreeWalk

/-!
# Files that are written

What is written at a path is read there:

    root.write path content = .ok root' → root'.read path = .ok content

over links, dots and all. A path that leads to a file leads to it still, since the tree keeps all its
other entries (`Keeps`). A path that leads to a name that is missing in a directory leads to the file
once it is there (`Misses`).
-/

namespace DefectScan.Entry

/-! ## A file in its place -/

section
variable {root : Entry} {above : List String} {name : String} {entries : List (String × Entry)}

theorem update_eq_fill (h : root.get? above = some (directory entries)) (f : Option Entry → Option Entry) :
    root.update f (above ++ [name]) = root.fill above (alter name f entries) := by
  rw [← update_fill h, fill_self h]

theorem get?_update (h : root.get? above = some (directory entries)) (e : Entry) :
    (root.update (fun _ => some e) (above ++ [name])).get? (above ++ [name]) = some e := by
  rw [update_eq_fill h, get?_fill h, get?_cons (lookup_alter_some _ _ _)]
  rfl

/-- A file may come where none was, or take the place of another. -/
theorem keeps_update_file (h : root.get? above = some (directory entries))
    (hold : ∀ e, entries.lookup name = some e → ∃ old, e = file old) (content : ByteArray) :
    Keeps root (root.update (fun _ => some (file content)) (above ++ [name])) := by
  rw [update_eq_fill h]
  refine .fill h fun names e he => ?_
  cases names with
  | nil =>
    cases he
    exact ⟨_, rfl, .directory _ _⟩
  | cons name' names =>
    obtain ⟨_, below, heq, hbelow, he⟩ := exists_of_get?_cons he
    cases heq
    by_cases hname : name' = name
    · subst hname
      obtain ⟨old, rfl⟩ := hold below hbelow
      rw [get?_cons (lookup_alter_some _ _ _)]
      cases names with
      | nil =>
        cases he
        exact ⟨_, rfl, .file _ _⟩
      | cons => cases he -- A file has nothing below it.
    · rw [get?_cons ((lookup_alter_of_ne hname _ _).trans hbelow)]
      exact ⟨e, he, .refl e⟩

end

/-! ## Names that are missing -/

/-- The parts of a path lead to a name that is missing in a directory, and once a file stands there they
lead to the file. -/
structure Misses (root : Entry) (last : Bool) (links : Nat) (reached parts above : List String)
    (name : String) : Prop where
  directory : root.DirectoryAt above
  absent : root.get? (above ++ [name]) = none
  leads : ∀ root' content, Keeps root root' → root'.get? (above ++ [name]) = some (file content) →
    Leads root' last links reached parts (above ++ [name])

/-- What misses a name from some way on misses it from the start. -/
theorem Misses.before {root : Entry} {last : Bool} {links fewer : Nat}
    {reached reached' parts rest above : List String} {name : String}
    (h : Misses root last fewer reached' rest above name)
    (hleads : ∀ root', Keeps root root' → Leads root' last fewer reached' rest (above ++ [name]) →
      Leads root' last links reached parts (above ++ [name])) :
    Misses root last links reached parts above name where
  directory := h.directory
  absent := h.absent
  leads root' content hkeeps hfile := hleads root' hkeeps (h.leads root' content hkeeps hfile)

theorem misses_of_walk {root : Entry} {last : Bool} {links : Nat}
    {jump : List String → List String → Except FileError Place} {reached parts above : List String}
    {name : String}
    (hjump : ∀ reached parts, jump reached parts = .ok (.absent above name) →
      ∃ fewer, fewer + 1 = links ∧ Misses root last fewer reached parts above name)
    (h : walk root last jump reached parts = .ok (.absent above name)) :
    Misses root last links reached parts above name := by
  induction parts generalizing reached with
  | nil => cases h
  | cons part rest ih =>
    rw [walk] at h
    split at h
    · next hvoid =>
      split at h
      · next hdirectory =>
        exact (ih h).before fun root' hkeeps hleads =>
          .void hvoid (hkeeps.directoryAt ((directoryAt_iff _ _).mpr hdirectory)) hleads
      · cases h
    · next hvoid =>
      split at h
      · next hup =>
        subst hup
        exact (ih h).before fun root' _ hleads => .up hleads
      · next hup =>
        have hpart : Named part := named_of_not hvoid hup
        simp only at h
        split at h
        -- the walk ends at a name that its directory lacks, and only as the last part of the path
        · next habsent =>
          split at h
          · next hdirectory =>
            split at h
            · cases h
            · split at h
              · next hrest =>
                cases h
                rw [List.isEmpty_iff] at hrest
                subst hrest
                exact ⟨(directoryAt_iff _ _).mpr hdirectory, habsent, fun root' content _ hfile =>
                  .step hpart hfile (fun _ => Entry.noConfusion) (.done _ _)⟩
              · cases h
          · cases h
        · next target hentry =>
          split at h
          · cases h
          · next hend =>
            obtain ⟨fewer, rfl, hmisses⟩ := hjump _ _ h
            refine hmisses.before fun root' hkeeps hleads =>
              .jump hpart (hkeeps.get?_link hentry) ?_ hleads
            by_contra hnot
            simp only [not_or, Bool.not_eq_true, ne_eq, not_not] at hnot
            simp [hnot.1, hnot.2] at hend
        · next e hlink hentry =>
          -- the part leads on to an entry, which the writing may change but not make a link
          refine (ih h).before fun root' hkeeps hleads => ?_
          obtain ⟨e', he', hlink'⟩ := hkeeps.not_link hentry fun target heq => hlink target heq
          exact .step hpart he' hlink' hleads

theorem misses_of_follow {root : Entry} {last : Bool} {links : Nat} {reached parts above : List String}
    {name : String} (h : follow root last links reached parts = .ok (.absent above name)) :
    Misses root last links reached parts above name := by
  induction links generalizing reached parts with
  | zero =>
    rw [follow] at h
    refine misses_of_walk ?_ h
    intro _ _ hjump
    cases hjump
  | succ links ih => exact misses_of_walk (fun _ _ hjump => ⟨links, rfl, ih hjump⟩) h

/-! ## Names that are there -/

theorem get?_append (root : Entry) (names behind : List String) :
    root.get? (names ++ behind) = (root.get? names).bind (·.get? behind) := by
  induction names generalizing root with
  | nil => rfl
  | cons name names ih =>
    cases root with
    | file content => rfl
    | link target => rfl
    | directory entries =>
      rw [List.cons_append, get?, get?]
      cases entries.lookup name with
      | none => rfl
      | some below => exact ih below

/-- What is above an entry is a directory. -/
theorem directoryAt_of_get? {root e : Entry} {above : List String} {name : String}
    (h : root.get? (above ++ [name]) = some e) :
    ∃ entries, root.get? above = some (directory entries) ∧ entries.lookup name = some e := by
  rw [get?_append] at h
  obtain ⟨parent, hparent, hname⟩ := Option.bind_eq_some_iff.mp h
  obtain ⟨entries, below, rfl, hbelow, he⟩ := exists_of_get?_cons hname
  cases he
  exact ⟨entries, hparent, hbelow⟩

/-- Where links are followed, a path in a directory leads to an entry that is none. -/
theorem Leads.exists_entry {others : List (String × Entry)} {links : Nat}
    {reached parts names : List String}
    (h : Leads (directory others) true links reached parts names)
    (hreached : ∃ e, (directory others).get? reached = some e ∧ ∀ target, e ≠ link target) :
    ∃ e, (directory others).get? names = some e ∧ ∀ target, e ≠ link target := by
  have htop : ∃ e, (directory others).get? [] = some e ∧ ∀ target, e ≠ link target :=
    ⟨_, rfl, fun _ => Entry.noConfusion⟩
  induction h with
  | done => exact hreached
  | void _ _ _ ih => exact ih hreached
  | @up links reached rest names _ ih =>
    refine ih ?_
    rcases List.eq_nil_or_concat' reached with rfl | ⟨above, name, rfl⟩
    · exact htop
    · obtain ⟨e, he, -⟩ := hreached
      obtain ⟨entries, hentries, -⟩ := directoryAt_of_get? he
      rw [List.dropLast_concat]
      exact ⟨_, hentries, fun _ => Entry.noConfusion⟩
  | step _ hentry hlink _ ih => exact ih ⟨_, hentry, hlink⟩
  | jump _ _ _ _ ih =>
    refine ih ?_
    split
    · exact htop
    · exact hreached
  | stay _ _ hlast => cases hlast

/-- Where the root is no directory, a path leads nowhere else. -/
theorem Leads.eq_nil {root : Entry} (hroot : ∀ entries, root ≠ directory entries) {last : Bool}
    {links : Nat} {parts names : List String} (h : Leads root last links [] parts names) (root' : Entry) :
    names = [] ∧ Leads root' last links [] parts [] := by
  -- no name can be looked up in such a root, so only `..` and the end of the path are left
  have hnone (name : String) : root.get? ([] ++ [name]) = none := by
    cases root with
    | file content => rfl
    | link target => rfl
    | directory entries => exact absurd rfl (hroot entries)
  generalize hreached : ([] : List String) = reached at h
  induction h with
  | done links =>
    subst hreached
    exact ⟨rfl, .done links _⟩
  | void _ hdirectory =>
    subst hreached
    obtain ⟨entries, hentries⟩ := hdirectory
    exact absurd (Option.some_inj.mp hentries) (hroot entries)
  | up _ ih =>
    subst hreached
    obtain ⟨hnames, hleads⟩ := ih rfl
    exact ⟨hnames, .up hleads⟩
  | step _ hentry =>
    subst hreached
    rw [hnone] at hentry
    cases hentry
  | jump _ hentry =>
    subst hreached
    rw [hnone] at hentry
    cases hentry
  | stay _ hentry =>
    subst hreached
    rw [hnone] at hentry
    cases hentry

/-! ## Reading -/

theorem read_of_leads {root : Entry} {path : String} {names : List String} {content : ByteArray}
    (hne : path ≠ "") (hend : '\x00' ∉ path.toList) (hshort : path.utf8ByteSize ≤ maxPath)
    (hleads : Leads root true maxLinks [] (Path.parts path) names)
    (hfile : root.get? names = some (file content)) : root.read path = .ok content := by
  have hlocate := locate_eq_ok_iff.mpr ⟨hne, hend, hshort, follow_eq_present_iff.mpr hleads⟩
  rw [read, hlocate]
  simp only [bind, Except.bind, hfile]

/-- A file that takes another's place is where the path leads. -/
theorem leads_of_write {root root' : Entry} {path : String} {names : List String} {content : ByteArray}
    (hlocate : root.locate true path = .ok (.present names)) (h : root.write path content = .ok root') :
    Leads root' true maxLinks [] (Path.parts path) names ∧ root'.get? names = some (file content) := by
  have hleads := follow_eq_present_iff.mp (locate_eq_ok_iff.mp hlocate).2.2.2
  rw [write, hlocate] at h
  simp only [bind, Except.bind] at h
  cases root with
  | directory others =>
    obtain ⟨e, he, hlink⟩ := hleads.exists_entry ⟨_, rfl, fun _ => Entry.noConfusion⟩
    rw [he] at h
    cases e with
    | directory entries => cases h
    | link target => exact absurd rfl (hlink target)
    | file old =>
      cases h
      rcases List.eq_nil_or_concat' names with rfl | ⟨above, name, rfl⟩
      · cases he
      · obtain ⟨entries, hentries, hname⟩ := directoryAt_of_get? he
        have hold (e : Entry) (h : entries.lookup name = some e) : ∃ old, e = file old :=
          ⟨old, Option.some_inj.mp (h.symm.trans hname)⟩
        exact ⟨hleads.of_keeps (keeps_update_file hentries hold content),
          get?_update hentries (file content)⟩
  | file old =>
    obtain ⟨rfl, hleads'⟩ := hleads.eq_nil (fun _ => Entry.noConfusion) root'
    cases h
    exact ⟨hleads', rfl⟩
  | link target =>
    obtain ⟨rfl, hleads'⟩ := hleads.eq_nil (fun _ => Entry.noConfusion) root'
    cases h
    exact ⟨hleads', rfl⟩

/-- What is written is read. -/
theorem read_of_write {root root' : Entry} {path : String} {content : ByteArray}
    (h : root.write path content = .ok root') : root'.read path = .ok content := by
  cases hlocate : root.locate true path with
  | error e =>
    rw [write, hlocate] at h
    cases h
  | ok place =>
    obtain ⟨hne, hend, hshort, hfollow⟩ := locate_eq_ok_iff.mp hlocate
    cases place with
    | absent above name =>
      rw [write, hlocate] at h
      cases h
      have hmisses := misses_of_follow hfollow
      obtain ⟨entries, hentries⟩ := hmisses.directory
      have hnone (e : Entry) (he : entries.lookup name = some e) : ∃ old, e = file old := by
        have habsent := hmisses.absent
        rw [get?_append, hentries, Option.bind_some, get?_cons he] at habsent
        cases habsent
      have hfile : (root.update _ (above ++ [name])).get? (above ++ [name]) = _ :=
        get?_update hentries (file content)
      exact read_of_leads hne hend hshort
        (hmisses.leads _ content (keeps_update_file hentries hnone content) hfile) hfile
    | present names =>
      obtain ⟨hleads, hfile⟩ := leads_of_write hlocate h
      exact read_of_leads hne hend hshort hleads hfile

end DefectScan.Entry
