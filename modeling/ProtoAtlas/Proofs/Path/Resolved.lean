/-
# A file is known by one URI

A file on disk is known to a workspace by the URI of its path.  The path is resolved first, which
changes nothing about a clean path with one slash at its start (`Path.exists_text_of_isClean`).
Then its bytes are escaped.  On the way back an escape is decoded together with the bytes around
it, whether they are escaped or not, so that a percent sign in a name, a character of several
bytes and plain text can stand side by side (`Uri.decode_encode`).  Cleaning up slashes and drive
letters does nothing to such a path, and the URI stands for it again.

So two such paths never have one URI, and what a workspace keeps for the one is not touched when
the other is loaded (`file_uris_read_back`).  A path with two slashes at its start is clean too,
but resolving it drops one of them, and it has the URI of the path with one slash.
-/

import ProtoAtlas.Proofs.Path.Place
import ProtoAtlas.Proofs.Workspace.Commute

namespace ProtoAtlas
namespace Path

/-- An absolute path that cleaning leaves as it is. -/
structure IsClean (path : Text) : Prop where
  absolute : isAbsolute path = true
  cleaned : clean path = path

instance (path : Text) : Decidable (IsClean path) :=
  decidable_of_iff (isAbsolute path = true ∧ clean path = path)
    ⟨fun ⟨absolute, cleaned⟩ => ⟨absolute, cleaned⟩,
      fun ⟨absolute, cleaned⟩ => ⟨absolute, cleaned⟩⟩

variable {path : Text}

/-- A clean path is a slash and names with single slashes between them, unless it starts with
two slashes. -/
theorem exists_text_of_isClean (h : IsClean path) (notTwo : rootSlashes path ≠ 2) :
    ∃ p : DiskPath, p.Proper ∧ path = p.text := by
  have one := rootSlashes_of_isAbsolute h.absolute notTwo
  refine ⟨cleanParts path, ?_, ?_⟩
  · rw [cleanParts_of_isAbsolute h.absolute]
    exact DiskPath.proper_foldl_step fun _ mem => nomatch mem
  · rw [← clean_of_rootSlashes one, h.cleaned]

/-- A second slash at the start of a path adds no part. -/
theorem cleanParts_cons_slash (absolute : isAbsolute path = true) :
    cleanParts (slash :: path) = cleanParts path := by
  have same : parts (slash :: path) = parts path := by
    rw [← List.nil_append (slash :: path), parts_append_cons, parts_nil, List.nil_append]
  rw [cleanParts_of_isAbsolute absolute, cleanParts_of_isAbsolute (by simp [isAbsolute]), same]

/-- Two slashes at the start of a clean path are kept by cleaning. -/
theorem isClean_cons_slash {p : DiskPath} (proper : p.Proper) : IsClean (slash :: p.text) where
  absolute := by simp [isAbsolute]
  cleaned := by
    have split : p.text = [] ++ slash :: p.text.tail := by simp [DiskPath.text]
    have relative : isAbsolute p.text.tail = false := isAbsolute_of_text_eq proper split
    have single : p.text.takeWhile (· = slash) = [slash] := by
      rw [DiskPath.text] at relative ⊢
      rw [List.takeWhile_cons_of_pos (by simp)]
      cases joined : Text.join [slash] p with
      | nil => rfl
      | cons c rest =>
        rw [joined] at relative
        rw [List.takeWhile_cons_of_neg (by simpa [isAbsolute] using relative)]
    have two : rootSlashes (slash :: p.text) = 2 := by
      rw [rootSlashes, List.takeWhile_cons_of_pos (by simp), single]
      rfl
    rw [clean, two, cleanParts_cons_slash (isAbsolute_text p), cleanParts_text proper]
    rfl

end Path

namespace Uri

/-- A resolved path is escaped as it is. -/
theorem ofUnclean_text {p : DiskPath} (proper : p.Proper) : ofUnclean p.text = ofPath p.text := by
  rw [ofUnclean, Path.cleanParts_text proper]
  rfl

/-- **The URI of a clean path stands for the path**, unless it starts with two slashes. -/
theorem toPath_ofUnclean {path : Text} (clean : Path.IsClean path)
    (notTwo : Path.rootSlashes path ≠ 2) (plain : Path.Plain path) :
    toPath (ofUnclean path) = path := by
  obtain ⟨p, proper, rfl⟩ := Path.exists_text_of_isClean clean notTwo
  rw [ofUnclean_text proper]
  exact toPath_ofPath plain proper.trimmed

end Uri

end ProtoAtlas
