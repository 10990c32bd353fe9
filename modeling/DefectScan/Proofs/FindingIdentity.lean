import DefectScan.Fingerprint
import Mathlib

/-!
# What a fingerprint tells apart

The bytes that a fingerprint is the digest of are put together without marks between the parts, and
yet each part can be read off again:

    f.identity = g.identity ↔ f.Alike g

No name of a category begins another, so the first part ends where it must; the line takes eight
bytes, and these determine it; no name of a detector ends another, so the last part begins where it
must, and what is left is the description, whatever it holds. Two findings that are not alike can have
one fingerprint only where the digest itself has a collision.
-/

namespace DefectScan

/-! ## Bytes of a text -/

theorem loop_eq_append_drop (bytes : ByteArray) (i : Nat) (acc : List UInt8) :
    ByteArray.toList.loop bytes i acc = acc.reverse ++ bytes.data.toList.drop i := by
  have hsize : bytes.data.toList.length = bytes.size := Array.length_toList
  induction hn : bytes.size - i generalizing i acc with
  | zero =>
    rw [ByteArray.toList.loop, if_neg (by omega), List.drop_eq_nil_of_le (by omega), List.append_nil]
  | succ n ih =>
    have hi : i < bytes.data.toList.length := by omega
    have hget : bytes.get! i = bytes.data.toList[i] := getElem!_pos bytes.data i (by simpa using hi)
    rw [ByteArray.toList.loop, if_pos (by omega), ih (i + 1) _ (by omega), List.drop_eq_getElem_cons hi,
      hget, List.reverse_cons, List.append_assoc]
    rfl

theorem toList_eq_data (bytes : ByteArray) : bytes.toList = bytes.data.toList :=
  loop_eq_append_drop bytes 0 []

theorem toList_toUTF8_inj {s t : String} (h : s.toUTF8.toList = t.toUTF8.toList) : s = t := by
  rw [toList_eq_data, toList_eq_data, Array.toList_inj] at h
  exact String.toByteArray_inj.mp (ByteArray.ext h)

/-! ## Parts that end by themselves -/

section
variable {α β : Type} {code : α → List β} {a b : α} {s t : List β}

theorem append_inj_of_prefix (hcode : ∀ a b, code a <+: code b → a = b)
    (h : code a ++ s = code b ++ t) : a = b ∧ s = t := by
  have hab : a = b := by
    rcases List.prefix_or_prefix_of_prefix (List.prefix_append (code a) s)
      (h ▸ List.prefix_append (code b) t) with hle | hle
    · exact hcode a b hle
    · exact (hcode b a hle).symm
  subst hab
  exact ⟨rfl, List.append_cancel_left h⟩

theorem append_inj_of_suffix (hcode : ∀ a b, code a <:+ code b → a = b)
    (h : s ++ code a = t ++ code b) : s = t ∧ a = b := by
  have hab : a = b := by
    rcases List.suffix_or_suffix_of_suffix (List.suffix_append s (code a))
      (h ▸ List.suffix_append t (code b)) with hle | hle
    · exact hcode a b hle
    · exact (hcode b a hle).symm
  subst hab
  exact ⟨List.append_cancel_right h, rfl⟩

end

theorem Category.eq_of_name_prefix (c d : Category)
    (h : c.name.toUTF8.toList <+: d.name.toUTF8.toList) : c = d := by
  have hall : ∀ c ∈ all, ∀ d ∈ all,
      c.name.toUTF8.data.toList <+: d.name.toUTF8.data.toList → c = d := by decide
  rw [toList_eq_data, toList_eq_data] at h
  exact hall c (mem_all c) d (mem_all d) h

theorem DetectorKind.eq_of_name_suffix (d e : DetectorKind)
    (h : d.name.toUTF8.toList <:+ e.name.toUTF8.toList) : d = e := by
  have hall : ∀ d ∈ all, ∀ e ∈ all,
      d.name.toUTF8.data.toList <:+ e.name.toUTF8.data.toList → d = e := by decide
  have hmem : ∀ d : DetectorKind, d ∈ all := by
    intro d
    cases d <;> decide
  rw [toList_eq_data, toList_eq_data] at h
  exact hall d (hmem d) e (hmem e) h

namespace Finding

/-! ## The line -/

theorem length_lineBytes (n : Nat) : (lineBytes n).length = 8 := by
  rw [lineBytes, List.length_map, List.length_range]

/-- The lower digits of a number determine it up to the first that is left out. -/
theorem mod_eq_of_digits {m n k : Nat} (h : ∀ i < k, m / 256 ^ i % 256 = n / 256 ^ i % 256) :
    m % 256 ^ k = n % 256 ^ k := by
  induction k with
  | zero => rw [pow_zero, Nat.mod_one, Nat.mod_one]
  | succ k ih =>
    rw [Nat.mod_pow_succ, Nat.mod_pow_succ, ih fun i hi => h i (Nat.lt_succ_of_lt hi),
      h k (Nat.lt_succ_self k)]

theorem lineBytes_inj {m n : Nat} (hm : m < 2 ^ 64) (hn : n < 2 ^ 64)
    (h : lineBytes m = lineBytes n) : m = n := by
  have hdigits : ∀ i < 8, m / 256 ^ i % 256 = n / 256 ^ i % 256 := by
    intro i hi
    have hbyte := List.map_inj_left.mp h i (List.mem_range.mpr hi)
    simpa [Nat.pow_eq] using congrArg UInt8.toNat hbyte
  have hmod := mod_eq_of_digits hdigits
  rwa [Nat.mod_eq_of_lt (hm.trans_eq (by norm_num)), Nat.mod_eq_of_lt (hn.trans_eq (by norm_num))]
    at hmod

/-! ## Main result -/

/-- The findings agree in all that identifies them; severity and confidence may differ. -/
structure Alike (f g : Finding) : Prop where
  category : f.category = g.category
  line : f.line = g.line
  description : f.description = g.description
  detector : f.detector = g.detector

theorem Alike.identity_eq {f g : Finding} (h : f.Alike g) : f.identity = g.identity := by
  rw [identity, identity, h.category, h.line, h.description, h.detector]

theorem alike_of_identity_eq {f g : Finding} (hf : f.line < 2 ^ 64) (hg : g.line < 2 ^ 64)
    (h : f.identity = g.identity) : f.Alike g := by
  unfold identity at h
  obtain ⟨h, hdetector⟩ := append_inj_of_suffix DetectorKind.eq_of_name_suffix h
  rw [List.append_assoc, List.append_assoc] at h
  obtain ⟨hcategory, h⟩ := append_inj_of_prefix Category.eq_of_name_prefix h
  obtain ⟨hline, hdescription⟩ := List.append_inj h (by rw [length_lineBytes, length_lineBytes])
  exact ⟨hcategory, lineBytes_inj hf hg hline, toList_toUTF8_inj hdescription, hdetector⟩

end Finding

/-- Different bytes with one digest. -/
def Sha256.Collision (a b : List UInt8) : Prop := a ≠ b ∧ hex ⟨a.toArray⟩ = hex ⟨b.toArray⟩

namespace Finding

/-- The bytes of two findings are the same exactly if they agree in category, line, description and
detector. Their fingerprints are the same exactly if they so agree, or the bytes of the two are a
collision of the digest. -/
theorem fingerprint_eq_iff_alike (f g : Finding) (hf : f.line < 2 ^ 64) (hg : g.line < 2 ^ 64) :
    (f.identity = g.identity ↔ f.Alike g) ∧
      (f.fingerprint = g.fingerprint ↔ f.Alike g ∨ Sha256.Collision f.identity g.identity) := by
  have hidentity : f.identity = g.identity ↔ f.Alike g :=
    ⟨alike_of_identity_eq hf hg, Alike.identity_eq⟩
  refine ⟨hidentity, ?_⟩
  constructor
  · intro h
    by_cases hsame : f.identity = g.identity
    · exact .inl (hidentity.mp hsame)
    · exact .inr ⟨hsame, h⟩
  · rintro (hsame | hcollision)
    · rw [fingerprint, fingerprint, hsame.identity_eq]
    · exact hcollision.2

/-- A finding on the last line that there can be. -/
def onLastLine (description : String) : Finding :=
  atLine .syntaxError (2 ^ 64 - 1) description .structural

/-- A description that goes on as the detector is called, and a finding that has another confidence. -/
theorem fingerprint_eq_iff_alike_structural :
    (onLastLine "").line < 2 ^ 64 ∧ (onLastLine "structural").line < 2 ^ 64 ∧
      (onLastLine "").identity ≠ (onLastLine "structural").identity ∧
      (onLastLine "").fingerprint = { onLastLine "" with confidence := some 0.5 }.fingerprint := by
  have hline : 2 ^ 64 - 1 < 2 ^ 64 := by norm_num
  refine ⟨hline, hline, fun h => ?_, ?_⟩
  · have hdescription := ((fingerprint_eq_iff_alike _ _ hline hline).1.mp h).description
    exact absurd hdescription (by decide)
  · exact (fingerprint_eq_iff_alike _ _ hline hline).2.mpr (.inl ⟨rfl, rfl, rfl, rfl⟩)

end Finding

end DefectScan
