/-
# File URIs read back

The URI of a path stands for that path again if nothing in it means something else on the
way back (`Uri.toPath_ofPath`): a surrogate has no UTF-8 form, a backslash is taken for a
slash, and a path with a colon in third place is taken for one that starts with a drive
letter (`Path.Plain`).
-/

import ProtoAtlas.Path.Uri
import ProtoAtlas.Proofs.Text.Utf8

namespace ProtoAtlas

/-- A path without surrogates, backslashes and a colon in third place. -/
structure Path.Plain (path : Text) : Prop where
  scalar : ∀ c ∈ path, c.isSurrogate = false
  forward : CodePoint.ofChar '\\' ∉ path
  noDrive : path[2]? ≠ some (CodePoint.ofChar ':')

instance (path : Text) : Decidable (Path.Plain path) :=
  decidable_of_iff ((∀ c ∈ path, c.isSurrogate = false) ∧ CodePoint.ofChar '\\' ∉ path ∧
      path[2]? ≠ some (CodePoint.ofChar ':'))
    ⟨fun ⟨scalar, forward, noDrive⟩ => ⟨scalar, forward, noDrive⟩,
      fun ⟨scalar, forward, noDrive⟩ => ⟨scalar, forward, noDrive⟩⟩

theorem Text.replace_eq_self {old new : CodePoint} {t : Text} (h : old ∉ t) :
    t.replace old new = t := by
  refine (List.map_congr_left fun c hc => ?_).trans (List.map_id t)
  have other : c ≠ old := fun same => h (same ▸ hc)
  exact if_neg other

/-- A path without backslashes is normal if it does not end in a slash. -/
theorem Path.normalize_eq_self {path : Text} (forward : CodePoint.ofChar '\\' ∉ path)
    (trimmed : 1 < path.length → path.getLast? ≠ some slash) : normalize path = path := by
  unfold normalize
  rw [Text.replace_eq_self forward]
  dsimp only
  rw [if_neg]
  simpa using trimmed

namespace Uri

theorem hexDigit_facts : ∀ n < 16,
    (CodePoint.ofChar (Nat.digitChar n).toUpper).isHexDigit = true ∧
      (CodePoint.ofChar (Nat.digitChar n).toUpper).hexValue = n := by
  decide

/-- The two digits of an escaped byte stand for it. -/
theorem escapeByte?_hexByte (b : UInt8) :
    escapeByte? (CodePoint.ofChar (Nat.digitChar (b.toNat / 16)).toUpper)
      (CodePoint.ofChar (Nat.digitChar (b.toNat % 16)).toUpper) = some b := by
  have bound := b.toNat_lt
  obtain ⟨isHigh, high⟩ := hexDigit_facts (b.toNat / 16) (by omega)
  obtain ⟨isLow, low⟩ := hexDigit_facts (b.toNat % 16) (by omega)
  have number : b.toNat / 16 * 16 + b.toNat % 16 = b.toNat := by omega
  rw [escapeByte?, isHigh, isLow, high, low, number, UInt8.ofNat_toNat]
  rfl

/-- A byte that stands for itself is an ASCII character other than `%`. -/
theorem isPlain_bounds {b : UInt8} (h : isPlain b = true) : b.toNat < 0x80 ∧ b.toNat ≠ 37 := by
  simp [isPlain] at h
  omega

/-- **A byte of a URI is read back.** -/
theorem decodeFrom_encodeByte (run : List UInt8) (b : UInt8) (rest : Text) :
    decodeFrom run (encodeByte b ++ rest) = decodeFrom (b :: run) rest := by
  unfold encodeByte
  split
  · next plain =>
    obtain ⟨ascii, notPercent⟩ := isPlain_bounds plain
    rw [List.singleton_append, decodeFrom.eq_def]
    dsimp only
    rw [if_pos ascii, if_neg, UInt8.ofNat_toNat]
    intro percent
    exact notPercent (congrArg CodePoint.val percent)
  · rw [List.cons_append, Utf8.hexByte, decodeFrom.eq_def]
    dsimp only [List.cons_append, List.nil_append]
    rw [if_pos (by decide), if_pos rfl, escapeByte?_hexByte]

theorem decode_encode {path : Text} (scalar : ∀ c ∈ path, c.isSurrogate = false) :
    decode (encode path) = path := by
  have bytes : ∀ (run bs : List UInt8),
      decodeFrom run (bs.flatMap encodeByte) = Utf8.decodeLossy (run.reverse ++ bs) := by
    intro run bs
    induction bs generalizing run with
    | nil => rw [List.flatMap_nil, decodeFrom, List.append_nil]
    | cons b rest ih =>
      rw [List.flatMap_cons, decodeFrom_encodeByte, ih, List.reverse_cons, List.append_assoc,
        List.singleton_append]
  rw [decode, encode, bytes, List.reverse_nil, List.nil_append, Utf8.decodeLossy_encode scalar]

theorem dropPrefix?_append (start t : Text) : Text.dropPrefix? start (start ++ t) = some t := by
  rw [Text.dropPrefix?, if_pos (by simp), List.drop_left]

/-- **The URI of a path stands for that path.** -/
theorem toPath_ofPath {path : Text} (plain : Path.Plain path)
    (trimmed : 1 < path.length → path.getLast? ≠ some Path.slash) :
    toPath (ofPath path) = path := by
  have noDrive : dropDriveSlash path = path := by
    unfold dropDriveSlash
    split
    · next first second third rest =>
      rw [if_neg fun drive => plain.noDrive (congrArg some drive.2)]
    · rfl
  rw [toPath, ofPath, dropPrefix?_append]
  dsimp only
  rw [decode_encode plain.scalar, noDrive, Path.normalize_eq_self plain.forward trimmed]

end Uri
end ProtoAtlas
