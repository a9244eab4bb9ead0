/-
# Places that path texts mean

A path text read from a directory means a place (`DiskPath.locate`): its parts are
followed one by one, where `..` takes away the part before it.  A disk resolves the text
of a joined path to that place (`Disk.eq_locate_of_resolve`), and cleaning the text gives
the text of that place (`Path.clean_join`), so that the two ways to follow a path agree.
-/

import ProtoAtlas.Disk.Basic
import ProtoAtlas.Proofs.Path.Uri

namespace ProtoAtlas

/-! ### The parts of a path text -/

namespace Text

theorem splitOn_append_cons (separator : CodePoint) (a b : Text) :
    splitOn separator (a ++ separator :: b) = splitOn separator a ++ splitOn separator b := by
  induction a with
  | nil => simp [splitOn]
  | cons c cs ih =>
    rw [List.cons_append, splitOn, splitOn, ih]
    split
    · rw [List.cons_append]
    · cases pieces : splitOn separator cs with
      | nil => exact absurd pieces (splitOn_ne_nil _ _)
      | cons piece rest => rfl

theorem splitOn_of_notMem {separator : CodePoint} {t : Text} (h : separator ∉ t) :
    splitOn separator t = [t] := by
  induction t with
  | nil => rfl
  | cons c cs ih =>
    rw [List.mem_cons, not_or] at h
    rw [splitOn, if_neg (Ne.symm h.1), ih h.2]

theorem notMem_of_mem_splitOn {separator : CodePoint} {t piece : Text}
    (h : piece ∈ splitOn separator t) : separator ∉ piece := by
  induction t generalizing piece with
  | nil =>
    obtain rfl := List.mem_singleton.1 h
    exact List.not_mem_nil
  | cons c cs ih =>
    rw [splitOn] at h
    split at h
    · rcases List.mem_cons.1 h with rfl | h
      · exact List.not_mem_nil
      · exact ih h
    · next other =>
      cases pieces : splitOn separator cs with
      | nil => exact absurd pieces (splitOn_ne_nil _ _)
      | cons first rest =>
        rw [pieces] at h
        have inside : ∀ p ∈ first :: rest, separator ∉ p := fun p hp => ih (pieces ▸ hp)
        rcases List.mem_cons.1 h with rfl | h
        · rw [List.mem_cons, not_or]
          exact ⟨Ne.symm other, inside first List.mem_cons_self⟩
        · exact inside piece (List.mem_cons_of_mem _ h)

/-- A text is what is left when its end is dropped, and that end. -/
theorem exists_dropEndWhile (p : CodePoint → Bool) (t : Text) :
    ∃ tail, t = t.dropEndWhile p ++ tail ∧ ∀ c ∈ tail, p c = true := by
  refine ⟨(t.reverse.takeWhile p).reverse, ?_, fun c hc => ?_⟩
  · rw [dropEndWhile, ← List.reverse_append, List.takeWhile_append_dropWhile, List.reverse_reverse]
  · exact List.all_eq_true.1 List.all_takeWhile c (List.mem_reverse.1 hc)

theorem dropEndWhile_append {p : CodePoint → Bool} (a : Text) {b : Text} (h : ∀ c ∈ b, p c = true) :
    dropEndWhile p (a ++ b) = dropEndWhile p a := by
  rw [dropEndWhile, List.reverse_append,
    List.dropWhile_append_of_pos fun c hc => h c (List.mem_reverse.1 hc), dropEndWhile]

theorem dropEndWhile_eq_self {p : CodePoint → Bool} {t : Text}
    (h : ∀ c, t.getLast? = some c → p c = false) : dropEndWhile p t = t := by
  rcases List.eq_nil_or_concat t with rfl | ⟨front, c, rfl⟩
  · rfl
  · rw [List.concat_eq_append] at h ⊢
    rw [dropEndWhile, List.reverse_append, List.reverse_singleton, List.singleton_append,
      List.dropWhile_cons_of_neg (by simp [h c (by simp)]), ← List.reverse_reverse (front ++ [c]),
      List.reverse_append]
    rfl

end Text

namespace DiskPath

/-- A name: not empty, neither `.` nor `..`, and without slashes. -/
structure IsName (part : Text) : Prop where
  nonempty : part ≠ []
  notHere : part ≠ Path.here
  notUp : part ≠ Path.up
  noSlash : Path.slash ∉ part

instance (part : Text) : Decidable (IsName part) :=
  decidable_of_iff (part ≠ [] ∧ part ≠ Path.here ∧ part ≠ Path.up ∧ Path.slash ∉ part)
    ⟨fun ⟨nonempty, notHere, notUp, noSlash⟩ => ⟨nonempty, notHere, notUp, noSlash⟩,
      fun ⟨nonempty, notHere, notUp, noSlash⟩ => ⟨nonempty, notHere, notUp, noSlash⟩⟩

/-- All parts of a path are names. -/
def Proper (p : DiskPath) : Prop := ∀ part ∈ p, IsName part

instance (p : DiskPath) : Decidable p.Proper := List.decidableBAll _ p

theorem Proper.dropLast {p : DiskPath} (proper : p.Proper) : Proper (List.dropLast p) :=
  fun part mem => proper part ((List.dropLast_sublist p).subset mem)

/-- A path with a slash before each part. -/
def spelled (p : DiskPath) : Text := p.flatMap (Path.slash :: ·)

theorem text_of_ne_nil {p : DiskPath} (h : p ≠ []) : p.text = p.spelled := by
  have joined : ∀ (part : Text) (rest : DiskPath),
      Text.join [Path.slash] (part :: rest) = part ++ spelled rest := by
    intro part rest
    induction rest generalizing part with
    | nil => simp [Text.join, List.intercalate, spelled]
    | cons next rest ih =>
      have step : Text.join [Path.slash] (part :: next :: rest) =
          part ++ Path.slash :: Text.join [Path.slash] (next :: rest) := by
        simp [Text.join, List.intercalate, List.intersperse]
      rw [step, ih]
      simp [spelled]
  cases p with
  | nil => exact absurd rfl h
  | cons part rest =>
    rw [text, joined]
    simp [spelled]

theorem text_concat (p : DiskPath) (part : Text) :
    (p ++ [part]).text = p.spelled ++ Path.slash :: part := by
  rw [text_of_ne_nil (by simp)]
  simp [spelled]

end DiskPath

namespace Path

theorem parts_append_cons (a b : Text) : parts (a ++ slash :: b) = parts a ++ parts b := by
  rw [parts, Text.splitOn_append_cons, List.filter_append]
  rfl

theorem parts_nil : parts [] = [] := rfl

theorem splitOn_append_spelled {p : DiskPath} (proper : p.Proper) (t : Text) :
    Text.splitOn slash (t ++ p.spelled) = Text.splitOn slash t ++ p := by
  induction p generalizing t with
  | nil => simp [DiskPath.spelled]
  | cons part rest ih =>
    have spelled : DiskPath.spelled (part :: rest) = slash :: (part ++ DiskPath.spelled rest) := by
      simp [DiskPath.spelled]
    rw [spelled, Text.splitOn_append_cons, ih fun q hq => proper q (List.mem_cons_of_mem _ hq),
      Text.splitOn_of_notMem (proper part List.mem_cons_self).noSlash, List.singleton_append]

theorem parts_append_spelled {p : DiskPath} (proper : p.Proper) (t : Text) :
    parts (t ++ p.spelled) = parts t ++ p := by
  have kept : p.filter (fun part => !part.isEmpty && part ≠ here) = p :=
    List.filter_eq_self.2 fun part mem => by
      simp [(proper part mem).nonempty, (proper part mem).notHere]
  rw [parts, splitOn_append_spelled proper, List.filter_append, kept]
  rfl

/-- A part of a path text is a name, or `..`. -/
theorem isName_of_mem_parts {path part : Text} (h : part ∈ parts path) (notUp : part ≠ up) :
    DiskPath.IsName part := by
  obtain ⟨piece, kept⟩ := List.mem_filter.1 h
  simp only [Bool.and_eq_true, Bool.not_eq_true', List.isEmpty_eq_false_iff, decide_eq_true_eq]
    at kept
  exact ⟨kept.1, kept.2, notUp, Text.notMem_of_mem_splitOn piece⟩

end Path

/-! ### Following a path -/

namespace DiskPath

/-- Goes on by one part of a path. -/
def step (place : DiskPath) (part : Text) : DiskPath :=
  if part = Path.up then place.dropLast else place ++ [part]

/-- The place that a path text means, read from a directory. -/
def locate (directory : DiskPath) (path : Text) : DiskPath :=
  (Path.parts path).foldl step (if Path.isAbsolute path then [] else directory)

theorem foldl_step_of_proper {p : DiskPath} (proper : p.Proper) (place : DiskPath) :
    p.foldl step place = place ++ p := by
  induction p generalizing place with
  | nil => rw [List.foldl_nil, List.append_nil]
  | cons part rest ih =>
    rw [List.foldl_cons, ih fun q hq => proper q (List.mem_cons_of_mem _ hq), step,
      if_neg (proper part List.mem_cons_self).notUp, List.append_assoc, List.singleton_append]

theorem proper_foldl_step {path : Text} {place : DiskPath} (proper : place.Proper) :
    ((Path.parts path).foldl step place).Proper := by
  have steps : ∀ (parts : List Text) (place : DiskPath), (∀ part ∈ parts, part ∈ Path.parts path) →
      place.Proper → (parts.foldl step place).Proper := by
    intro parts
    induction parts with
    | nil => exact fun _ _ proper => proper
    | cons part rest ih =>
      intro place sub proper
      refine ih _ (fun q hq => sub q (List.mem_cons_of_mem _ hq)) fun q hq => ?_
      rw [step] at hq
      split at hq
      · exact proper q ((List.dropLast_sublist place).subset hq)
      · next notUp =>
        rcases List.mem_append.1 hq with hq | hq
        · exact proper q hq
        · rw [List.mem_singleton.1 hq]
          exact Path.isName_of_mem_parts (sub part List.mem_cons_self) notUp
  exact steps _ place (fun _ h => h) proper

/-- A place that is read from a proper one is proper. -/
theorem Proper.locate {directory : DiskPath} (proper : directory.Proper) (path : Text) :
    (directory.locate path).Proper := by
  unfold DiskPath.locate
  split
  · exact proper_foldl_step fun _ h => nomatch h
  · exact proper_foldl_step proper

/-- The last part of a path does not end in a slash. -/
theorem Proper.getLast?_spelled {p : DiskPath} (proper : p.Proper) :
    p.spelled.getLast? ≠ some Path.slash := by
  rcases List.eq_nil_or_concat p with rfl | ⟨front, part, rfl⟩
  · simp [spelled]
  · rw [List.concat_eq_append] at proper ⊢
    have name := proper part (by simp)
    rw [← text_of_ne_nil (by simp), text_concat, List.append_cons, List.getLast?_append,
      List.getLast?_eq_some_getLast name.nonempty, Option.some_or]
    exact fun last => name.noSlash (Option.some.inj last ▸ List.getLast_mem name.nonempty)

theorem Proper.trimmed {p : DiskPath} (proper : p.Proper) (long : 1 < p.text.length) :
    p.text.getLast? ≠ some Path.slash := by
  have nonempty : p ≠ [] := by
    rintro rfl
    exact absurd long (by decide)
  rw [text_of_ne_nil nonempty]
  exact proper.getLast?_spelled

end DiskPath

namespace Disk

/-- What a disk resolves a path text to is what following its parts gives. -/
theorem eq_foldl_of_resolve {d : Disk} {path : Text} {place : DiskPath}
    (h : d.resolve path = .ok place) :
    place = (Path.parts path).foldl DiskPath.step (d.startOf path) := by
  have followed : ∀ {place next : DiskPath} {part : Text}, follow place part = .ok next →
      next = place.step part := by
    intro place next part h
    unfold follow at h
    unfold DiskPath.step
    split at h
    · next isUp => rw [if_pos isUp, Except.ok.inj h]
    · next notUp =>
      rw [if_neg notUp]
      dsimp only at h
      split at h
      · cases h
      · split at h
        · cases h
        · exact (Except.ok.inj h).symm
  have steps : ∀ (parts : List Text) (start : DiskPath), parts.foldlM follow start = .ok place →
      place = parts.foldl DiskPath.step start := by
    intro parts
    induction parts with
    | nil => exact fun start h => (Except.ok.inj h).symm
    | cons part rest ih =>
      intro start h
      rw [List.foldlM_cons] at h
      cases first : follow start part with
      | error fault =>
        rw [first] at h
        cases h
      | ok next =>
        rw [first] at h
        rw [List.foldl_cons, ← followed first]
        exact ih next h
  exact steps _ _ h

end Disk

/-! ### Joined and cleaned paths -/

namespace Path

open DiskPath

variable {directory : DiskPath} {path : Text}

theorem join_text (proper : directory.Proper) (relative : isAbsolute path = false) :
    join directory.text path = directory.spelled ++ slash :: path := by
  rw [join, if_neg (by simp [relative])]
  cases directory with
  | nil => rfl
  | cons part rest =>
    have name := proper part List.mem_cons_self
    have long : 1 < (text (part :: rest)).length := by
      rw [text_of_ne_nil (by simp)]
      have := List.length_pos_iff.2 name.nonempty
      simp only [spelled, List.flatMap_cons, List.length_append, List.length_cons]
      omega
    rw [if_neg, text_of_ne_nil (by simp)]
    rw [Bool.or_eq_true, not_or]
    exact ⟨by simp [text], by simpa using proper.trimmed long⟩

theorem parts_join (proper : directory.Proper) (relative : isAbsolute path = false) :
    parts (join directory.text path) = directory ++ parts path := by
  have spelled := parts_append_spelled proper []
  rw [List.nil_append, parts_nil, List.nil_append] at spelled
  rw [join_text proper relative, parts_append_cons, spelled]

theorem isAbsolute_join (directory : DiskPath) (path : Text) :
    isAbsolute (join directory.text path) = true := by
  unfold join
  split
  · assumption
  · split
    · simp [isAbsolute, text]
    · simp [isAbsolute, text]

/-- Following the parts of a joined path from the root leads to the place it means. -/
theorem foldl_parts_join (proper : directory.Proper) (path : Text) :
    (parts (join directory.text path)).foldl step [] = directory.locate path := by
  unfold locate
  cases absolute : isAbsolute path with
  | true => rw [join, if_pos absolute, if_pos rfl]
  | false =>
    rw [parts_join proper absolute, List.foldl_append, foldl_step_of_proper proper,
      List.nil_append, if_neg (by simp)]

/-- Cleaning the parts of an absolute path follows them. -/
theorem cleanParts_of_isAbsolute (absolute : isAbsolute path = true) :
    cleanParts path = (parts path).foldl step [] := by
  -- The parts cleaned so far stand in reverse order, and none of them is `..`.
  have steps : ∀ (pieces cleaned : List Text), up ∉ cleaned →
      (pieces.foldl (addPart true) cleaned).reverse =
        (pieces.filter fun part => !part.isEmpty && part ≠ here).foldl step cleaned.reverse := by
    intro pieces
    induction pieces with
    | nil => exact fun _ _ => rfl
    | cons part rest ih =>
      intro cleaned noUp
      rw [List.foldl_cons, List.filter_cons]
      by_cases skipped : part = [] ∨ part = here
      · have same : addPart true cleaned part = cleaned := by
          unfold addPart
          rw [if_pos (by simpa using skipped)]
        rw [same, if_neg (by simpa using fun h => skipped.resolve_left h)]
        exact ih cleaned noUp
      · have kept := not_or.1 skipped
        rw [if_pos (by simpa using kept), List.foldl_cons]
        by_cases isUp : part = up
        · have popped : addPart true cleaned part = cleaned.tail := by
            unfold addPart
            rw [if_neg (by simpa using kept), if_neg (by simp [isUp])]
            cases cleaned with
            | nil => rfl
            | cons last rest =>
              rw [List.mem_cons, not_or] at noUp
              exact if_neg (Ne.symm noUp.1)
          have dropped : step cleaned.reverse part = cleaned.tail.reverse := by
            rw [step, if_pos isUp]
            cases cleaned with
            | nil => rfl
            | cons last rest => simp
          rw [popped, dropped]
          exact ih _ fun h => noUp (List.mem_of_mem_tail h)
        · have pushed : addPart true cleaned part = part :: cleaned := by
            unfold addPart
            rw [if_neg (by simpa using kept), if_pos isUp]
          have added : step cleaned.reverse part = (part :: cleaned).reverse := by
            rw [step, if_neg isUp, List.reverse_cons]
          rw [pushed, added]
          refine ih _ ?_
          rw [List.mem_cons, not_or]
          exact ⟨Ne.symm isUp, noUp⟩
  rw [cleanParts, absolute]
  exact steps _ [] List.not_mem_nil

theorem clean_of_rootSlashes (one : rootSlashes path = 1) :
    clean path = DiskPath.text (cleanParts path) := by
  rw [clean, one]
  rfl

theorem rootSlashes_cons {t : Text} (h : isAbsolute t = false) : rootSlashes (slash :: t) = 1 := by
  have none : t.takeWhile (· = slash) = [] := by
    cases t with
    | nil => rfl
    | cons c rest => exact List.takeWhile_cons_of_neg (by simpa [isAbsolute] using h)
  rw [rootSlashes, List.takeWhile_cons_of_pos (by simp), none]
  rfl

theorem rootSlashes_of_isAbsolute (absolute : isAbsolute path = true)
    (notTwo : rootSlashes path ≠ 2) : rootSlashes path = 1 := by
  cases path with
  | nil => cases absolute
  | cons c rest =>
    have isSlash : c = slash := by simpa [isAbsolute] using absolute
    unfold rootSlashes at notTwo ⊢
    rw [isSlash, List.takeWhile_cons_of_pos (by simp), List.length_cons] at notTwo ⊢
    generalize (rest.takeWhile (· = slash)).length = n at notTwo ⊢
    match n with
    | 0 => rfl
    | 1 => exact absurd rfl notTwo
    | n + 2 => rfl

/-- **Cleaning a joined path gives the text of the place it means**, unless the path
starts with exactly two slashes, which cleaning keeps. -/
theorem clean_join (proper : directory.Proper) (notTwo : rootSlashes path ≠ 2) :
    clean (join directory.text path) = (directory.locate path).text := by
  have one : rootSlashes (join directory.text path) = 1 := by
    cases absolute : isAbsolute path with
    | true =>
      rw [join, if_pos absolute]
      exact rootSlashes_of_isAbsolute absolute notTwo
    | false =>
      rw [join_text proper absolute]
      cases directory with
      | nil => exact rootSlashes_cons absolute
      | cons part rest =>
        have name := proper part List.mem_cons_self
        refine rootSlashes_cons ?_
        cases part with
        | nil => exact absurd rfl name.nonempty
        | cons c cs =>
          have other : c ≠ slash := fun h => name.noSlash (h ▸ List.mem_cons_self)
          simp [isAbsolute, other]
  rw [clean_of_rootSlashes one, cleanParts_of_isAbsolute (isAbsolute_join directory path),
    foldl_parts_join proper]

/-- The parts of the text of a path. -/
theorem parts_text (proper : directory.Proper) : parts directory.text = directory := by
  cases directory with
  | nil => rfl
  | cons part rest =>
    rw [text_of_ne_nil (by simp), ← List.nil_append (spelled _), parts_append_spelled proper]
    rfl

/-- The text of a path has no two slashes in a row. -/
theorem isAbsolute_of_text_eq (proper : directory.Proper) {front rest : Text}
    (split : directory.text = front ++ slash :: rest) : isAbsolute rest = false := by
  cases rest with
  | nil => rfl
  | cons c rest =>
    simp only [isAbsolute, List.head?_cons, Option.some.injEq, decide_eq_false_iff_not]
    rintro rfl
    have nonempty : directory ≠ [] := by
      rintro rfl
      have long := congrArg List.length split
      rw [List.length_append, List.length_cons, List.length_cons] at long
      change 1 = _ at long
      omega
    have pieces := splitOn_append_spelled proper []
    rw [List.nil_append, ← DiskPath.text_of_ne_nil nonempty, split, Text.splitOn_append_cons]
      at pieces
    obtain ⟨piece, more, first⟩ := List.exists_cons_of_ne_nil (Text.splitOn_ne_nil slash front)
    rw [first] at pieces
    have parts : directory = more ++ Text.splitOn slash (slash :: rest) :=
      (List.cons.inj pieces).2.symm
    have empty : ([] : Text) ∈ directory := by
      rw [parts, Text.splitOn, if_pos rfl]
      simp
    exact (proper _ empty).nonempty rfl

theorem isAbsolute_text (directory : DiskPath) : isAbsolute directory.text = true := by
  simp [isAbsolute, text]

theorem rootSlashes_text (proper : directory.Proper) : rootSlashes directory.text = 1 := by
  have split : directory.text = [] ++ slash :: directory.text.tail := by simp [text]
  rw [split]
  exact rootSlashes_cons (isAbsolute_of_text_eq proper split)

theorem cleanParts_text (proper : directory.Proper) : cleanParts directory.text = directory := by
  rw [cleanParts_of_isAbsolute (isAbsolute_text directory), parts_text proper,
    foldl_step_of_proper proper, List.nil_append]

theorem clean_text (proper : directory.Proper) : clean directory.text = directory.text := by
  rw [clean_of_rootSlashes (rootSlashes_text proper), cleanParts_text proper]

/-- The directory of a file is its path without the last part. -/
theorem parent_text (proper : directory.Proper) :
    parent directory.text = DiskPath.text directory.dropLast := by
  rcases List.eq_nil_or_concat directory with rfl | ⟨front, part, rfl⟩
  · decide
  rw [List.concat_eq_append] at proper ⊢
  have name := proper part (by simp)
  have properFront : Proper front := fun q hq => proper q (List.mem_append_left _ hq)
  have head : (text (front ++ [part])).dropEndWhile (· ≠ slash) = spelled front ++ [slash] := by
    rw [text_concat, List.append_cons, Text.dropEndWhile_append _ fun c hc => ?_]
    · exact Text.dropEndWhile_eq_self fun c hc => by
        rw [List.getLast?_concat] at hc
        simp [← Option.some.inj hc]
    · simpa using fun h : c = slash => name.noSlash (h ▸ hc)
  rw [parent, head, List.dropLast_concat]
  cases front with
  | nil => rfl
  | cons first rest =>
    have notRoot : ¬ (spelled (first :: rest) ++ [slash]).all (· = slash) = true := by
      have firstName := properFront first List.mem_cons_self
      intro all
      refine firstName.nonempty (List.eq_nil_iff_forall_not_mem.2 fun c hc => ?_)
      have isSlash := List.all_eq_true.1 all c (by simp [spelled, hc])
      exact firstName.noSlash (of_decide_eq_true isSlash ▸ hc)
    rw [if_neg notRoot, Text.dropEndWhile_append _ (by simp), text_of_ne_nil (by simp)]
    refine Text.dropEndWhile_eq_self fun c hc => ?_
    simpa using fun h : c = slash => properFront.getLast?_spelled (h ▸ hc)

/-- Normalizing a path without backslashes keeps its parts and its root. -/
theorem locate_normalize (forward : CodePoint.ofChar '\\' ∉ path) :
    directory.locate (normalize path) = directory.locate path := by
  have slashes : ∀ (a tail : Text), (∀ c ∈ tail, decide (c = slash) = true) →
      parts (a ++ tail) = parts a := by
    intro a tail
    induction tail generalizing a with
    | nil => exact fun _ => by rw [List.append_nil]
    | cons c rest ih =>
      intro all
      rw [of_decide_eq_true (all c List.mem_cons_self), parts_append_cons, ← List.nil_append rest,
        ih [] fun c hc => all c (List.mem_cons_of_mem _ hc), parts_nil, List.append_nil]
  obtain ⟨tail, split, all⟩ := Text.exists_dropEndWhile (· = slash) path
  unfold normalize
  rw [Text.replace_eq_self forward]
  dsimp only
  split
  · next long =>
    split
    · next empty =>
      rw [empty, List.nil_append] at split
      have absolute : isAbsolute path = true := by
        cases path with
        | nil => simp at long
        | cons c rest =>
          have isSlash := of_decide_eq_true (all c (split ▸ List.mem_cons_self))
          simp [isAbsolute, isSlash]
      have none := slashes [] tail all
      rw [List.nil_append, ← split] at none
      rw [locate, locate, none, if_pos absolute]
      rfl
    · next trimmed nonempty =>
      have same := slashes (path.dropEndWhile (· = slash)) tail all
      rw [← split] at same
      have root : isAbsolute (path.dropEndWhile (· = slash)) = isAbsolute path := by
        generalize path.dropEndWhile (· = slash) = front at split nonempty
        cases front with
        | nil => exact absurd rfl nonempty
        | cons c rest =>
          rw [split]
          rfl
      rw [locate, locate, same, root]
  · rfl

end Path

/-- **A disk resolves a joined path to the place it means.** -/
theorem Disk.eq_locate_of_resolve {d : Disk} {directory place : DiskPath} {path : Text}
    (proper : directory.Proper) (h : d.resolve (Path.join directory.text path) = .ok place) :
    place = directory.locate path := by
  rw [eq_foldl_of_resolve h, startOf, if_pos (Path.isAbsolute_join directory path),
    Path.foldl_parts_join proper]

end ProtoAtlas
