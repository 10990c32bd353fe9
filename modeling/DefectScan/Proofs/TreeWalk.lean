import DefectScan.Files.Tree
import DefectScan.Proofs.PathText

/-!
# Walks in a tree of files

Where a path leads is said here by a relation (`Leads`), step by step along its parts: a part that is
no component stays in a directory, `..` goes up, a name goes into its entry, and a link goes on from
where it points. The walk that is run finds exactly these places (`follow_eq_present_iff`).

A directory that is filled leaves everything else as it was (`keeps_fill`): what a path led to, it leads
to still (`Leads.of_keeps`), and behind it the walk goes on from there (`Leads.follow_append`).
-/

namespace DefectScan.Entry

/-! ## Entries of a directory -/

theorem lookup_alter_of_ne {name other : String} (h : other ≠ name) (f : Option Entry → Option Entry)
    (entries : List (String × Entry)) : (alter name f entries).lookup other = entries.lookup other := by
  have hother : (other == name) = false := beq_false_of_ne h
  induction entries with
  | nil =>
    rw [alter]
    cases f none with
    | none => rfl
    | some e => simp [List.lookup_cons, hother]
  | cons x rest ih =>
    obtain ⟨n, e⟩ := x
    rw [alter, List.lookup_cons]
    split
    · next hn =>
      subst hn
      cases f (some e) <;> simp [List.lookup_cons, hother]
    · rw [List.lookup_cons, ih]

theorem lookup_alter_some (name : String) (e : Entry) (entries : List (String × Entry)) :
    (alter name (fun _ => some e) entries).lookup name = some e := by
  induction entries with
  | nil => simp [alter]
  | cons x rest ih =>
    obtain ⟨n, e'⟩ := x
    rw [alter]
    split
    · next hn =>
      subst hn
      exact List.lookup_cons_self
    · next hn => rw [List.lookup_cons, beq_false_of_ne (Ne.symm hn), ih]

theorem alter_congr {name : String} {f g : Option Entry → Option Entry}
    {entries : List (String × Entry)} (h : f (entries.lookup name) = g (entries.lookup name)) :
    alter name f entries = alter name g entries := by
  induction entries with
  | nil =>
    rw [List.lookup_nil] at h
    rw [alter, alter, h]
  | cons x rest ih =>
    obtain ⟨n, e⟩ := x
    by_cases hn : n = name
    · subst hn
      rw [List.lookup_cons_self] at h
      simp [alter, h]
    · rw [List.lookup_cons, beq_false_of_ne (Ne.symm hn)] at h
      simp [alter, hn, ih h]

theorem alter_alter (name : String) (f : Option Entry → Option Entry) (e : Entry)
    (entries : List (String × Entry)) :
    alter name f (alter name (fun _ => some e) entries) = alter name (fun _ => f (some e)) entries := by
  induction entries with
  | nil => simp [alter]
  | cons x rest ih =>
    obtain ⟨n, e'⟩ := x
    by_cases hn : n = name
    · subst hn
      simp [alter]
    · simp [alter, hn, ih]

theorem alter_self {name : String} {e : Entry} {entries : List (String × Entry)}
    (h : entries.lookup name = some e) : alter name (fun _ => some e) entries = entries := by
  induction entries with
  | nil => cases h
  | cons x rest ih =>
    obtain ⟨n, e'⟩ := x
    by_cases hn : n = name
    · subst hn
      rw [List.lookup_cons_self] at h
      cases h
      simp [alter]
    · rw [List.lookup_cons, beq_false_of_ne (Ne.symm hn)] at h
      simp [alter, hn, ih h]

theorem mem_names_alter {name other : String} {f : Option Entry → Option Entry}
    {entries : List (String × Entry)} (h : other ∈ (alter name f entries).map Prod.fst) :
    other = name ∨ other ∈ entries.map Prod.fst := by
  induction entries with
  | nil =>
    rw [alter] at h
    cases hf : f none with
    | none => simp [hf] at h
    | some e => exact .inl (by simpa [hf] using h)
  | cons x rest ih =>
    obtain ⟨n, e⟩ := x
    by_cases hn : n = name
    · subst hn
      cases hf : f (some e) <;> simp [alter, hf] at h ⊢ <;> tauto
    · simp only [alter, hn, if_false, List.map_cons, List.mem_cons] at h ⊢
      rcases h with h | h
      · exact .inr (.inl h)
      · rcases ih h with h | h
        · exact .inl h
        · exact .inr (.inr h)

theorem nodup_alter {name : String} (f : Option Entry → Option Entry) {entries : List (String × Entry)}
    (h : (entries.map Prod.fst).Nodup) : ((alter name f entries).map Prod.fst).Nodup := by
  induction entries with
  | nil =>
    rw [alter]
    cases f none <;> simp
  | cons x rest ih =>
    obtain ⟨n, e⟩ := x
    rw [List.map_cons, List.nodup_cons] at h
    by_cases hn : n = name
    · subst hn
      cases hf : f (some e) <;> simp [alter, hf, h.1, h.2]
    · rw [alter, if_neg hn, List.map_cons, List.nodup_cons]
      refine ⟨fun hmem => ?_, ih h.2⟩
      rcases mem_names_alter hmem with heq | hmem
      · exact hn heq
      · exact h.1 hmem

theorem lookup_alter_none {name : String} {entries : List (String × Entry)}
    (h : (entries.map Prod.fst).Nodup) : (alter name (fun _ => none) entries).lookup name = none := by
  induction entries with
  | nil => rfl
  | cons x rest ih =>
    obtain ⟨n, e⟩ := x
    rw [List.map_cons, List.nodup_cons] at h
    by_cases hn : n = name
    · subst hn
      have habsent : rest.lookup n = none := by
        rw [List.lookup_eq_none_iff]
        intro x hx
        exact bne_iff_ne.mpr fun heq => h.1 (List.mem_map.mpr ⟨x, hx, heq.symm⟩)
      simpa [alter] using habsent
    · rw [alter, if_neg hn, List.lookup_cons, beq_false_of_ne (Ne.symm hn)]
      exact ih h.2

/-! ## A directory that is filled -/

/-- The tree with these entries in the directory that the names lead to. -/
def fill (root : Entry) (names : List String) (entries : List (String × Entry)) : Entry :=
  root.update (fun _ => some (directory entries)) names

/-- What the names lead to, from a directory on. -/
theorem exists_of_get?_cons {name : String} {names : List String} {root e : Entry}
    (h : root.get? (name :: names) = some e) :
    ∃ entries below, root = directory entries ∧ entries.lookup name = some below ∧
      below.get? names = some e := by
  cases root with
  | file content => cases h
  | link target => cases h
  | directory entries =>
    rw [get?] at h
    split at h
    · next below hbelow => exact ⟨entries, below, rfl, hbelow, h⟩
    · cases h

theorem get?_cons {name : String} {entries : List (String × Entry)} {below : Entry}
    (h : entries.lookup name = some below) (names : List String) :
    (directory entries).get? (name :: names) = below.get? names := by
  rw [get?, h]

section
variable {root e : Entry} {names : List String}

theorem fill_cons {name : String} {others : List (String × Entry)} {below : Entry}
    (h : others.lookup name = some below) (names : List String) (entries : List (String × Entry)) :
    (directory others).fill (name :: names) entries
      = directory (alter name (fun _ => some (below.fill names entries)) others) := by
  cases names with
  | nil => rfl
  | cons name' names =>
    rw [fill, update]
    · exact congrArg directory (alter_congr (by simp [h, fill]))
    · nofun

theorem get?_fill (h : root.get? names = some e) (entries : List (String × Entry))
    (behind : List String) :
    (root.fill names entries).get? (names ++ behind) = (directory entries).get? behind := by
  induction names generalizing root with
  | nil => rfl
  | cons name names ih =>
    obtain ⟨others, below, rfl, hbelow, he⟩ := exists_of_get?_cons h
    rw [fill_cons hbelow, List.cons_append, get?_cons (lookup_alter_some _ _ _), ih he]

theorem fill_self {entries : List (String × Entry)} (h : root.get? names = some (directory entries)) :
    root.fill names entries = root := by
  induction names generalizing root with
  | nil =>
    cases h
    rfl
  | cons name names ih =>
    obtain ⟨others, below, rfl, hbelow, he⟩ := exists_of_get?_cons h
    rw [fill_cons hbelow, ih he, alter_self hbelow]

theorem update_fill (h : root.get? names = some e) (entries : List (String × Entry))
    (f : Option Entry → Option Entry) (name : String) :
    (root.fill names entries).update f (names ++ [name]) = root.fill names (alter name f entries) := by
  induction names generalizing root with
  | nil => rfl
  | cons first names ih =>
    obtain ⟨others, below, rfl, hbelow, he⟩ := exists_of_get?_cons h
    have hmore : names ++ [name] ≠ [] :=
      List.append_ne_nil_of_right_ne_nil names (List.cons_ne_nil name [])
    obtain ⟨second, behind, hbehind⟩ := List.exists_cons_of_ne_nil hmore
    rw [fill_cons hbelow, fill_cons hbelow, List.cons_append, hbehind, update]
    · rw [alter_alter, Option.map_some, ← hbehind, ih he]
    · nofun

end

/-! ## Walks -/

/-- A part of a path that names an entry. -/
structure Named (part : String) : Prop where
  not_void : Path.isVoid part = false
  not_up : part ≠ ".."

/-- The names lead to a directory. -/
def DirectoryAt (root : Entry) (names : List String) : Prop :=
  ∃ entries, root.get? names = some (directory entries)

theorem directoryAt_iff (root : Entry) (names : List String) :
    root.DirectoryAt names ↔ ((root.get? names).map isDirectory).getD false = true := by
  unfold DirectoryAt
  cases root.get? names with
  | none => simp
  | some e => cases e <;> simp [isDirectory]

/-- The parts of a path lead from where the walk has come to a place, over so many links at most;
`last` says whether a link at the end is followed too. -/
inductive Leads (root : Entry) (last : Bool) : Nat → List String → List String → List String → Prop
  | done (links : Nat) (reached : List String) : Leads root last links reached [] reached
  | void {links : Nat} {reached rest names : List String} {part : String}
      (hpart : Path.isVoid part = true) (hdirectory : root.DirectoryAt reached)
      (h : Leads root last links reached rest names) :
      Leads root last links reached (part :: rest) names
  | up {links : Nat} {reached rest names : List String}
      (h : Leads root last links reached.dropLast rest names) :
      Leads root last links reached (".." :: rest) names
  | step {links : Nat} {reached rest names : List String} {part : String} {e : Entry}
      (hpart : Named part) (hentry : root.get? (reached ++ [part]) = some e)
      (hlink : ∀ target, e ≠ link target) (h : Leads root last links (reached ++ [part]) rest names) :
      Leads root last links reached (part :: rest) names
  | jump {links : Nat} {reached rest names : List String} {part target : String}
      (hpart : Named part) (hentry : root.get? (reached ++ [part]) = some (link target))
      (hlast : last = true ∨ rest ≠ [])
      (h : Leads root last links (if Path.isAbsolute target then [] else reached)
        (Path.parts target ++ rest) names) : Leads root last (links + 1) reached (part :: rest) names
  | stay {links : Nat} {reached : List String} {part target : String}
      (hpart : Named part) (hentry : root.get? (reached ++ [part]) = some (link target))
      (hlast : last = false) : Leads root last links reached [part] (reached ++ [part])

section
variable {root : Entry} {last : Bool} {links : Nat} {reached rest names : List String} {part : String}

theorem exists_walk (root : Entry) (last : Bool) (links : Nat) :
    ∃ jump, follow root last links = walk root last jump := by
  cases links with
  | zero => exact ⟨_, rfl⟩
  | succ links => exact ⟨_, rfl⟩

theorem follow_nil : follow root last links reached [] = .ok (.present reached) := by
  obtain ⟨jump, hwalk⟩ := exists_walk root last links
  rw [hwalk, walk]

theorem follow_void (hpart : Path.isVoid part = true) (hdirectory : root.DirectoryAt reached) :
    follow root last links reached (part :: rest) = follow root last links reached rest := by
  obtain ⟨jump, hwalk⟩ := exists_walk root last links
  rw [hwalk, walk, if_pos hpart, if_pos ((directoryAt_iff _ _).mp hdirectory)]

theorem follow_up : follow root last links reached (".." :: rest)
    = follow root last links reached.dropLast rest := by
  obtain ⟨jump, hwalk⟩ := exists_walk root last links
  rw [hwalk, walk, if_neg (by decide), if_pos rfl]

theorem follow_step {e : Entry} (hpart : Named part) (hentry : root.get? (reached ++ [part]) = some e)
    (hlink : ∀ target, e ≠ link target) :
    follow root last links reached (part :: rest)
      = follow root last links (reached ++ [part]) rest := by
  obtain ⟨jump, hwalk⟩ := exists_walk root last links
  rw [hwalk, walk, if_neg (by simp [hpart.not_void]), if_neg hpart.not_up]
  cases e with
  | link target => exact absurd rfl (hlink target)
  | file content => simp only [hentry]
  | directory entries => simp only [hentry]

theorem follow_jump {target : String} (hpart : Named part)
    (hentry : root.get? (reached ++ [part]) = some (link target)) (hlast : last = true ∨ rest ≠ []) :
    follow root last (links + 1) reached (part :: rest)
      = follow root last links (if Path.isAbsolute target then [] else reached)
        (Path.parts target ++ rest) := by
  have hon : ¬ (rest.isEmpty && !last) = true := by
    rcases hlast with rfl | hrest
    · simp
    · simp [hrest]
  rw [follow, walk, if_neg (by simp [hpart.not_void]), if_neg hpart.not_up]
  simp only [hentry]
  rw [if_neg hon]

theorem follow_stay {target : String} (hpart : Named part)
    (hentry : root.get? (reached ++ [part]) = some (link target)) :
    follow root false links reached [part] = .ok (.present (reached ++ [part])) := by
  obtain ⟨jump, hwalk⟩ := exists_walk root false links
  rw [hwalk, walk, if_neg (by simp [hpart.not_void]), if_neg hpart.not_up]
  simp only [hentry]
  rfl

end

theorem Leads.follow_eq {root : Entry} {last : Bool} {links : Nat} {reached parts names : List String}
    (h : Leads root last links reached parts names) :
    follow root last links reached parts = .ok (.present names) := by
  induction h with
  | done links reached => exact follow_nil
  | void hpart hdirectory _ ih => rw [follow_void hpart hdirectory, ih]
  | up _ ih => rw [follow_up, ih]
  | step hpart hentry hlink _ ih => rw [follow_step hpart hentry hlink, ih]
  | jump hpart hentry hlast _ ih => rw [follow_jump hpart hentry hlast, ih]
  | stay hpart hentry hlast =>
    subst hlast
    exact follow_stay hpart hentry

theorem named_of_not {part : String} (hvoid : ¬ Path.isVoid part = true) (hup : part ≠ "..") :
    Named part :=
  ⟨eq_false_of_ne_true hvoid, hup⟩

/-- One stretch of a walk leads where it says, if the links in it do. -/
theorem leads_of_walk {root : Entry} {last : Bool} {links : Nat}
    {jump : List String → List String → Except FileError Place} {reached parts names : List String}
    (hjump : ∀ reached parts, jump reached parts = .ok (.present names) →
      ∃ fewer, fewer + 1 = links ∧ Leads root last fewer reached parts names)
    (h : walk root last jump reached parts = .ok (.present names)) :
    Leads root last links reached parts names := by
  induction parts generalizing reached with
  | nil =>
    cases h
    exact .done links names
  | cons part rest ih =>
    rw [walk] at h
    split at h
    · next hvoid =>
      split at h
      · next hdirectory => exact .void hvoid ((directoryAt_iff _ _).mpr hdirectory) (ih h)
      · cases h
    · next hvoid =>
      split at h
      · next hup =>
        subst hup
        exact .up (ih h)
      · next hup =>
        have hpart : Named part := named_of_not hvoid hup
        simp only at h
        split at h
        · -- A name that is not there leads to no entry.
          split at h
          · split at h
            · cases h
            · split at h <;> cases h
          · cases h
        · next target hentry =>
          split at h
          · next hend =>
            simp only [Bool.and_eq_true, List.isEmpty_iff, Bool.not_eq_true'] at hend
            obtain ⟨rfl, hlast⟩ := hend
            cases h
            exact .stay hpart hentry hlast
          · next hend =>
            obtain ⟨fewer, rfl, hleads⟩ := hjump _ _ h
            refine .jump hpart hentry ?_ hleads
            by_contra hnot
            simp only [not_or, Bool.not_eq_true, ne_eq, not_not] at hnot
            simp [hnot.1, hnot.2] at hend
        · next e hlink hentry => exact .step hpart hentry (fun target he => hlink target he) (ih h)

theorem leads_of_follow {root : Entry} {last : Bool} {links : Nat} {reached parts names : List String}
    (h : follow root last links reached parts = .ok (.present names)) :
    Leads root last links reached parts names := by
  induction links generalizing reached parts with
  | zero =>
    rw [follow] at h
    refine leads_of_walk ?_ h
    intro _ _ hjump
    cases hjump
  | succ links ih => exact leads_of_walk (fun _ _ hjump => ⟨links, rfl, ih hjump⟩) h

theorem follow_eq_present_iff {root : Entry} {last : Bool} {links : Nat}
    {reached parts names : List String} :
    follow root last links reached parts = .ok (.present names) ↔
      Leads root last links reached parts names :=
  ⟨leads_of_follow, Leads.follow_eq⟩

theorem locate_eq_ok_iff {root : Entry} {last : Bool} {path : String} {place : Place} :
    root.locate last path = .ok place ↔ path ≠ "" ∧ '\x00' ∉ path.toList ∧
      path.utf8ByteSize ≤ maxPath ∧ follow root last maxLinks [] (Path.parts path) = .ok place := by
  rw [locate]
  split
  · next hempty => simp [hempty]
  · next hne =>
    split
    · next hend =>
      rw [List.contains_iff_mem] at hend
      simp [hend]
    · next hend =>
      rw [List.contains_iff_mem] at hend
      split
      · next hlong => simp [Nat.not_le.mpr hlong]
      · next hshort => simp [hne, hend, Nat.not_lt.mp hshort]

/-- Where the link at the end is not followed, a walk is not longer. -/
theorem Leads.unfollowed {root : Entry} {links : Nat} {reached parts names : List String}
    (h : Leads root true links reached parts names) :
    ∃ names', Leads root false links reached parts names' := by
  induction h with
  | done links reached => exact ⟨reached, .done links reached⟩
  | void hpart hdirectory _ ih =>
    obtain ⟨names', hleads⟩ := ih
    exact ⟨names', .void hpart hdirectory hleads⟩
  | up _ ih =>
    obtain ⟨names', hleads⟩ := ih
    exact ⟨names', .up hleads⟩
  | step hpart hentry hlink _ ih =>
    obtain ⟨names', hleads⟩ := ih
    exact ⟨names', .step hpart hentry hlink hleads⟩
  | @jump links reached rest names part target hpart hentry _ _ ih =>
    by_cases hrest : rest = []
    · subst hrest
      exact ⟨_, .stay hpart hentry rfl⟩
    · obtain ⟨names', hleads⟩ := ih
      exact ⟨names', .jump hpart hentry (.inr hrest) hleads⟩
  | stay _ _ hlast => cases hlast

/-- Behind a path that leads to a place, the walk goes on from there. -/
theorem Leads.follow_append {root : Entry} {links : Nat} {reached parts names : List String}
    (h : Leads root true links reached parts names) (last : Bool) {behind : List String}
    (hbehind : behind ≠ []) :
    ∃ fewer, follow root last links reached (parts ++ behind)
      = follow root last fewer names behind := by
  induction h with
  | done links reached => exact ⟨links, rfl⟩
  | void hpart hdirectory _ ih => rwa [List.cons_append, follow_void hpart hdirectory]
  | up _ ih => rwa [List.cons_append, follow_up]
  | step hpart hentry hlink _ ih => rwa [List.cons_append, follow_step hpart hentry hlink]
  | @jump _ _ rest _ _ _ hpart hentry _ _ ih =>
    -- More names follow, so the link is not at the end and is followed either way.
    have hmore : rest ++ behind ≠ [] := List.append_ne_nil_of_right_ne_nil rest hbehind
    rw [List.cons_append, follow_jump hpart hentry (.inr hmore), ← List.append_assoc]
    exact ih
  | stay _ _ hlast => cases hlast

/-- Parts that are no components lead nowhere. -/
theorem Leads.eq_of_void {root : Entry} {last : Bool} {links : Nat} {reached parts names : List String}
    (h : Leads root last links reached parts names) (hvoid : ∀ part ∈ parts, Path.isVoid part = true) :
    names = reached := by
  have hnot {part : String} {rest : List String} (hpart : Named part) :
      ¬ ∀ p ∈ part :: rest, Path.isVoid p = true := fun hall =>
    absurd (hall part (List.mem_cons_self)) (by simp [hpart.not_void])
  induction h with
  | done links reached => rfl
  | void _ _ _ ih => exact ih fun part hpart => hvoid part (List.mem_cons_of_mem _ hpart)
  | up _ _ => exact absurd (hvoid ".." List.mem_cons_self) (by decide)
  | step hpart _ _ _ _ => exact absurd hvoid (hnot hpart)
  | jump hpart _ _ _ _ => exact absurd hvoid (hnot hpart)
  | stay hpart _ _ => exact absurd hvoid (hnot hpart)

/-- The parts at the end that are no components may be left out. -/
theorem Leads.of_append {root : Entry} {links : Nat} {reached parts names : List String}
    (h : Leads root true links reached parts names) {before voids : List String}
    (hparts : parts = before ++ voids) (hvoids : ∀ part ∈ voids, Path.isVoid part = true) :
    Leads root true links reached before names := by
  have hfirst {part : String} {rest : List String} (hparts : part :: rest = [] ++ voids) :
      Path.isVoid part = true := by
    rw [List.nil_append] at hparts
    exact hvoids part (hparts ▸ List.mem_cons_self)
  induction h generalizing before with
  | done links reached =>
    obtain ⟨rfl, -⟩ := List.append_eq_nil_iff.mp hparts.symm
    exact .done links reached
  | @void links reached rest names part hpart hdirectory h ih =>
    cases before with
    | nil =>
      have hstay : names = reached := (Leads.void hpart hdirectory h).eq_of_void (hparts ▸ hvoids)
      subst hstay
      exact .done links names
    | cons part' before =>
      obtain ⟨rfl, hrest⟩ := List.cons_eq_cons.mp (hparts.trans (List.cons_append ..))
      exact .void hpart hdirectory (ih hrest)
  | up _ ih =>
    cases before with
    | nil => exact absurd (hfirst hparts) (by decide)
    | cons part' before =>
      obtain ⟨rfl, hrest⟩ := List.cons_eq_cons.mp (hparts.trans (List.cons_append ..))
      exact .up (ih hrest)
  | step hpart hentry hlink _ ih =>
    cases before with
    | nil => exact absurd (hfirst hparts) (by simp [hpart.not_void])
    | cons part' before =>
      obtain ⟨rfl, hrest⟩ := List.cons_eq_cons.mp (hparts.trans (List.cons_append ..))
      exact .step hpart hentry hlink (ih hrest)
  | jump hpart hentry _ _ ih =>
    cases before with
    | nil => exact absurd (hfirst hparts) (by simp [hpart.not_void])
    | cons part' before =>
      obtain ⟨rfl, hrest⟩ := List.cons_eq_cons.mp (hparts.trans (List.cons_append ..))
      exact .jump hpart hentry (.inl rfl) (ih (by rw [hrest, List.append_assoc]))
  | stay _ _ hlast => cases hlast

theorem follow_voids {root : Entry} {last : Bool} {links : Nat} {reached voids rest : List String}
    (hdirectory : root.DirectoryAt reached) (hvoids : ∀ part ∈ voids, Path.isVoid part = true) :
    follow root last links reached (voids ++ rest) = follow root last links reached rest := by
  induction voids with
  | nil => rfl
  | cons part voids ih =>
    rw [List.cons_append, follow_void (hvoids part List.mem_cons_self) hdirectory]
    exact ih fun part hpart => hvoids part (List.mem_cons_of_mem _ hpart)

theorem follow_absent {root : Entry} {last : Bool} {links : Nat} {reached : List String} {name : String}
    (hdirectory : root.DirectoryAt reached) (hname : Named name)
    (habsent : root.get? (reached ++ [name]) = none) :
    follow root last links reached [name]
      = if maxName < name.utf8ByteSize then .error .nameTooLong else .ok (.absent reached name) := by
  obtain ⟨jump, hwalk⟩ := exists_walk root last links
  rw [hwalk, walk, if_neg (by simp [hname.not_void]), if_neg hname.not_up]
  simp only [habsent]
  rw [if_pos ((directoryAt_iff _ _).mp hdirectory)]
  rfl

theorem Leads.append_voids {root : Entry} {links : Nat} {reached parts voids names : List String}
    (h : Leads root true links reached parts names) (hdirectory : root.DirectoryAt names)
    (hvoids : ∀ part ∈ voids, Path.isVoid part = true) :
    Leads root true links reached (parts ++ voids) names := by
  by_cases hnil : voids = []
  · rwa [hnil, List.append_nil]
  · obtain ⟨fewer, hfewer⟩ := h.follow_append true hnil
    apply follow_eq_present_iff.mp
    rw [hfewer, ← List.append_nil voids, follow_voids hdirectory hvoids, follow_nil]

/-! ## Walks in a tree that keeps its entries -/

/-- Two entries that a walk does not tell apart. -/
inductive Alike : Entry → Entry → Prop
  | file (content content' : ByteArray) : Alike (file content) (file content')
  | link (target : String) : Alike (link target) (link target)
  | directory (entries entries' : List (String × Entry)) :
    Alike (directory entries) (directory entries')

theorem Alike.refl (e : Entry) : Alike e e := by
  cases e with
  | file content => exact .file content content
  | link target => exact .link target
  | directory entries => exact .directory entries entries

/-- All that is in one tree is in the other, and a walk does not tell the two apart. -/
def Keeps (root root' : Entry) : Prop :=
  ∀ names e, root.get? names = some e → ∃ e', root'.get? names = some e' ∧ Alike e e'

/-- A tree keeps its entries if the directory that is filled keeps its own. -/
theorem Keeps.fill {root below : Entry} {names : List String} (h : root.get? names = some below)
    {entries : List (String × Entry)} (hkeeps : Keeps below (directory entries)) :
    Keeps root (root.fill names entries) := by
  induction names generalizing root with
  | nil =>
    cases h
    exact hkeeps
  | cons name names ih =>
    obtain ⟨others, next, rfl, hnext, hnames⟩ := exists_of_get?_cons h
    intro names' e he
    rw [fill_cons hnext]
    cases names' with
    | nil =>
      cases he
      exact ⟨_, rfl, .directory _ _⟩
    | cons name' names' =>
      obtain ⟨_, next', heq, hnext', he'⟩ := exists_of_get?_cons he
      cases heq
      by_cases hname : name' = name
      · subst hname
        cases hnext.symm.trans hnext'
        rw [get?_cons (lookup_alter_some _ _ _)]
        exact ih hnames names' e he'
      · rw [get?_cons ((lookup_alter_of_ne hname _ _).trans hnext')]
        exact ⟨e, he', .refl e⟩

theorem keeps_fill {root : Entry} {names : List String} (h : root.get? names = some (directory []))
    (entries : List (String × Entry)) : Keeps root (root.fill names entries) := by
  refine .fill h fun names' e he => ?_
  cases names' with
  | nil =>
    cases he
    exact ⟨_, rfl, .directory _ _⟩
  | cons name names' => cases he -- Nothing was in the directory.

theorem Keeps.directoryAt {root root' : Entry} (hkeeps : Keeps root root') {names : List String}
    (h : root.DirectoryAt names) : root'.DirectoryAt names := by
  obtain ⟨entries, hentries⟩ := h
  obtain ⟨e', he', halike⟩ := hkeeps names _ hentries
  cases halike with
  | directory _ entries' => exact ⟨entries', he'⟩

theorem Keeps.get?_link {root root' : Entry} (hkeeps : Keeps root root') {names : List String}
    {target : String} (h : root.get? names = some (link target)) :
    root'.get? names = some (link target) := by
  obtain ⟨e', he', halike⟩ := hkeeps names _ h
  cases halike with
  | link => exact he'

theorem Keeps.not_link {root root' e : Entry} (hkeeps : Keeps root root') {names : List String}
    (h : root.get? names = some e) (hlink : ∀ target, e ≠ link target) :
    ∃ e', root'.get? names = some e' ∧ ∀ target, e' ≠ link target := by
  obtain ⟨e', he', halike⟩ := hkeeps names _ h
  refine ⟨e', he', fun target htarget => ?_⟩
  subst htarget
  cases halike with
  | link => exact hlink target rfl

/-- What a path leads to, it leads to still in a tree that keeps all entries. -/
theorem Leads.of_keeps {root root' : Entry} (hkeeps : Keeps root root') {last : Bool} {links : Nat}
    {reached parts names : List String} (h : Leads root last links reached parts names) :
    Leads root' last links reached parts names := by
  induction h with
  | done links reached => exact .done links reached
  | void hpart hdirectory _ ih => exact .void hpart (hkeeps.directoryAt hdirectory) ih
  | up _ ih => exact .up ih
  | step hpart hentry hlink _ ih =>
    obtain ⟨e', he', hlink'⟩ := hkeeps.not_link hentry hlink
    exact .step hpart he' hlink' ih
  | jump hpart hentry hlast _ ih => exact .jump hpart (hkeeps.get?_link hentry) hlast ih
  | stay hpart hentry hlast => exact .stay hpart (hkeeps.get?_link hentry) hlast

end DefectScan.Entry
