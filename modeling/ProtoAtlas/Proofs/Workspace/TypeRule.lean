/-
# The scope rule

What a type name means is said here without the index: by classes of loaded types, the
most preferred first (`Workspace.typeClasses`), of which the first that is not empty
decides (`Preferred`).  The index finds a type by its full name even where a field or
another declaration holds that name (`Workspace.Indexed.preferred_type?`), because all
symbols with one full name stand under one simple name.
-/

import Mathlib.Data.List.Infix
import ProtoAtlas.Proofs.Workspace.Indexed
import ProtoAtlas.Proofs.Workspace.Visibility

namespace ProtoAtlas

/-- A choice among classes, the most preferred first: an element of the first class that
has any, and none if all are empty. -/
inductive Preferred {α : Type} : List (α → Prop) → Option α → Prop
  | none : Preferred [] none
  | here {p : α → Prop} {ps : List (α → Prop)} {a : α} : p a → Preferred (p :: ps) (some a)
  | later {p : α → Prop} {ps : List (α → Prop)} {o : Option α} :
      (∀ a, ¬ p a) → Preferred ps o → Preferred (p :: ps) o

namespace Preferred

variable {α β : Type} {ps qs : List (α → Prop)} {o o' : Option α}

/-- If nothing is chosen then all classes are empty. -/
theorem empty_of_none (h : Preferred ps Option.none) : ∀ p ∈ ps, ∀ a, ¬ p a := by
  generalize chosen : Option.none = o at h
  induction h with
  | none => exact fun p hp => nomatch hp
  | here => cases chosen
  | later none _ ih =>
    intro p hp
    rcases List.mem_cons.1 hp with rfl | hp
    · exact none
    · exact ih chosen p hp

/-- A second choice counts where the first finds nothing. -/
theorem or (h : Preferred ps o) (h' : o = Option.none → Preferred qs o') :
    Preferred (ps ++ qs) (o.or o') := by
  induction h with
  | none => exact h' rfl
  | here has => exact .here has
  | later none _ ih => exact .later none (ih h')

theorem findSome? {p : β → α → Prop} {f : β → Option α} (h : ∀ b, Preferred [p b] (f b))
    (bs : List β) : Preferred (bs.map p) (bs.findSome? f) := by
  induction bs with
  | nil => exact .none
  | cons b rest ih =>
    have split : (b :: rest).findSome? f = (f b).or (rest.findSome? f) := by
      rw [List.findSome?_cons]
      cases f b with
      | none => rfl
      | some a => rfl
    rw [split]
    exact (h b).or fun _ => ih

theorem find? {p : α → Prop} {q : α → Bool} {as : List α} (h : ∀ a, p a ↔ a ∈ as ∧ q a = true) :
    Preferred [p] (as.find? q) := by
  cases found : as.find? q with
  | none =>
    refine .later (fun a ha => ?_) .none
    obtain ⟨listed, holds⟩ := (h a).1 ha
    exact List.find?_eq_none.1 found a listed holds
  | some a => exact .here ((h a).2 ⟨List.mem_of_find?_eq_some found, List.find?_some found⟩)

end Preferred

/-! ### Names and scopes -/

/-- The joins of the non-empty beginnings of a scope's parts, the longest first. -/
def scopeBeginnings (scope : Text) : List Text :=
  if scope = [] then []
  else ((scope.splitOn nameDot).inits.tail.map (Text.join [nameDot])).reverse

theorem inits_tail_eq_map_take {α : Type} (l : List α) :
    l.inits.tail = (List.range l.length).map fun n => l.take (n + 1) := by
  refine List.ext_getElem (by simp) fun n h₁ h₂ => ?_
  simp

theorem enclosingScopes_eq (scope : Text) : enclosingScopes scope = scopeBeginnings scope := by
  unfold enclosingScopes scopeBeginnings
  cases scope with
  | nil => rfl
  | cons c cs =>
    rw [if_neg (by simp), if_neg (by simp), inits_tail_eq_map_take, List.map_map,
      ← List.map_reverse]
    rfl

/-- A name and a full name that ends with it have one last part. -/
theorem simpleName_append (outer name : Text) :
    simpleName (outer ++ nameDot :: name) = simpleName name := by
  have reversed : (outer ++ nameDot :: name).reverse =
      name.reverse ++ nameDot :: outer.reverse := by
    simp
  rw [simpleName, simpleName, reversed, List.takeWhile_append]
  split
  · next all =>
    rw [List.takeWhile_cons_of_neg (by simp), List.append_nil,
      (List.takeWhile_sublist _).eq_of_length all]
  · rfl

namespace Workspace

/-- A type of a loaded file. -/
def HasType (w : Workspace) (t : Symbol) : Prop := t ∈ w.allSymbols ∧ t.isType = true

/-- The loaded types with a full name. -/
def TypeNamed (w : Workspace) (fullName : Text) (t : Symbol) : Prop :=
  w.HasType t ∧ t.fullName = fullName

/-- The loaded types whose full name ends with a dot and a name. -/
def TypeEnding (w : Workspace) (name : Text) (t : Symbol) : Prop :=
  w.HasType t ∧ (nameDot :: name) <:+ t.fullName

/-- What a name that does not start with a dot may mean in a file, from a scope: a type in
the scope or one around it, the innermost first; a type with that full name; and last a
type whose full name ends with the name, of the same file, of one that imports lead to,
or of a stub. -/
def typeClasses (w : Workspace) (name uri scope : Text) : List (Symbol → Prop) :=
  (scopeBeginnings scope).map (fun outer => w.TypeNamed (outer ++ nameDot :: name)) ++
    [w.TypeNamed name,
      fun t => w.TypeEnding name t ∧ t.uri = uri,
      fun t => w.TypeEnding name t ∧ Relation.TransGen w.Imports uri t.uri,
      fun t => w.TypeEnding name t ∧ Uri.isBuiltin t.uri = true]

namespace Indexed

variable {w : Workspace} (h : w.Indexed)
include h

theorem mem_named {name : Text} {t : Symbol} :
    t ∈ w.index.named name ↔ t ∈ w.allSymbols ∧ t.name = name := by
  rw [(h.covers.named name).mem_iff, List.mem_filter, decide_eq_true_eq]

/-- The simple name of a loaded symbol is the last part of its full name. -/
theorem name_eq {t : Symbol} (ht : t ∈ w.allSymbols) : t.name = simpleName t.fullName := by
  obtain ⟨r, hr, ht⟩ := List.mem_flatMap.1 ht
  exact (h.proper r hr t ht).last.symm

/-- **The index finds the type with a full name** if there is one, whatever holds that
full name. -/
theorem preferred_type? (fullName : Text) :
    Preferred [w.TypeNamed fullName] (w.index.type? fullName) := by
  unfold SymbolIndex.type?
  have held := h.covers.holders fullName
  cases found : w.index.holder? fullName with
  | none =>
    rw [found] at held
    exact .later (fun t ht => held t ht.1.1 ht.2) .none
  | some t =>
    rw [found] at held
    dsimp only
    split
    · next type => exact .here ⟨⟨held.1, type⟩, held.2⟩
    · refine Preferred.find? fun a => ?_
      rw [h.mem_named, Bool.and_eq_true, decide_eq_true_eq]
      constructor
      · rintro ⟨⟨ha, type⟩, same⟩
        exact ⟨⟨ha, h.distinguished a ha t held.1 (same.trans held.2.symm)⟩, same, type⟩
      · rintro ⟨⟨ha, -⟩, same, type⟩
        exact ⟨⟨ha, type⟩, same⟩

theorem preferred_typeInScope? (scope name : Text) :
    Preferred ((scopeBeginnings scope).map (fun outer => w.TypeNamed (outer ++ nameDot :: name)) ++
      [w.TypeNamed name]) (w.index.typeInScope? scope name) := by
  rw [SymbolIndex.typeInScope?, Option.orElse_eq_orElse, Option.orElse_eq_or, enclosingScopes_eq]
  exact (Preferred.findSome? (fun outer => h.preferred_type? _) _).or
    fun _ => h.preferred_type? name

/-- Where no type has a name as its full name, the types the index offers for it are those
whose full name ends with it. -/
theorem mem_typesEndingIn {name : Text} (none : ∀ t, ¬ w.TypeNamed name t) {t : Symbol} :
    t ∈ w.index.typesEndingIn name ↔ w.TypeEnding name t := by
  rw [SymbolIndex.typesEndingIn, List.mem_filter, h.mem_named, Bool.and_eq_true, Bool.or_eq_true,
    decide_eq_true_eq, endsWithName, List.isSuffixOf_iff_suffix]
  constructor
  · rintro ⟨⟨ht, -⟩, type, same | ending⟩
    · exact absurd ⟨⟨ht, type⟩, same⟩ (none t)
    · exact ⟨⟨ht, type⟩, ending⟩
  · rintro ⟨⟨ht, type⟩, ending⟩
    obtain ⟨outer, split⟩ := ending
    have last : t.name = simpleName name := by rw [h.name_eq ht, ← split, simpleName_append]
    exact ⟨⟨ht, last⟩, type, Or.inr ⟨outer, split⟩⟩

end Indexed

open Query Session

/-- The stand-in for a name: of the same file, else of a visible one, else of a stub. -/
theorem answer_standIn (w : Workspace) (name uri : Text) :
    (standIn name uri).answer w =
      ((w.index.typesEndingIn name).find? (·.uri = uri)).or
        (((w.index.typesEndingIn name).find? fun t =>
            ((visibleUris uri).answer w).contains t.uri).or
          ((w.index.typesEndingIn name).find? fun t => Uri.isBuiltin t.uri)) := by
  rw [standIn, answer_current_bind]
  generalize w.index.typesEndingIn name = candidates
  cases candidates with
  | nil => rfl
  | cons t rest =>
    dsimp only
    rw [answer_ite, if_neg (by simp)]
    cases (t :: rest).find? (·.uri = uri) with
    | some own => rfl
    | none =>
      refine (answer_bind (looks_visibleUris uri) (fun _ => .pure _) w).trans ?_
      rw [answer_pure, Option.none_or, Option.orElse_eq_orElse, Option.orElse_eq_or]

/-- What a name that does not start with a dot means: by the scopes, else a stand-in. -/
theorem answer_resolveType (w : Workspace) {name : Text} (nonempty : name ≠ [])
    (declared : name ∉ scalarTypes) (relative : name.head? ≠ some nameDot) (uri : Text)
    (scope : Option Text) :
    (resolveType name uri scope).answer w =
      (w.index.typeInScope? (scope.getD (w.packageOf uri)) name).or
        ((standIn name uri).answer w) := by
  rw [resolveType, answer_current_bind, answer_ite, if_neg (by simp [nonempty, declared]),
    answer_ite, if_neg relative]
  cases w.index.typeInScope? (scope.getD (w.packageOf uri)) name with
  | some t => rfl
  | none =>
    have noted : ∀ found : Option Symbol, Looks (do
        if found.isNone then note (.typeUnresolved name uri)
        return found) := fun found =>
      .ite ((Looks.note _).bind fun _ => .pure _) (.pure _)
    rw [Option.none_or]
    refine (answer_bind (looks_standIn name uri) noted w).trans ?_
    cases (standIn name uri).answer w with
    | none => rfl
    | some t => rfl

namespace Indexed

variable {w : Workspace} (h : w.Indexed)
include h

/-- The stand-in is chosen from the right types, where no type has the name as its full
name. -/
theorem preferred_standIn {name : Text} (none : ∀ t, ¬ w.TypeNamed name t) (uri : Text) :
    Preferred [fun t => w.TypeEnding name t ∧ t.uri = uri,
      fun t => w.TypeEnding name t ∧ Relation.TransGen w.Imports uri t.uri,
      fun t => w.TypeEnding name t ∧ Uri.isBuiltin t.uri = true]
      ((standIn name uri).answer w) := by
  have ending : ∀ t, t ∈ w.index.typesEndingIn name ↔ w.TypeEnding name t := fun t =>
    h.mem_typesEndingIn none
  rw [answer_standIn]
  refine (Preferred.find? fun t => ?_).or fun noneOwn => ?_
  · rw [ending, decide_eq_true_eq]
  refine (Preferred.find? fun t => ?_).or fun _ => .find? fun t => ?_
  · -- A file also sees itself, but it has no type that could stand in.
    rw [ending, List.contains_iff_mem, mem_visibleUris]
    refine and_congr_right fun ht => ?_
    constructor
    · intro way
      obtain ⟨target, first, -⟩ := Relation.TransGen.head'_iff.1 way
      obtain ⟨r, found, -⟩ := first
      exact ⟨by rw [IsLoaded, found, Option.isSome_some], way.to_reflTransGen⟩
    · rintro ⟨-, way⟩
      refine (Relation.reflTransGen_iff_eq_or_transGen.1 way).resolve_left fun own => ?_
      exact List.find?_eq_none.1 noneOwn t ((ending t).2 ht) (decide_eq_true own)
  · rw [ending]

end Indexed
end Workspace

/-- **Types are resolved by the scope rule.**  In every reachable session, a name that is
neither empty nor scalar means the following.  After a leading dot the rest is a full
name, and the name means a loaded type with it, or nothing if there is none.  Any other
name means a loaded type of the first class of `Workspace.typeClasses` that is not empty,
and nothing if all are empty; without a scope it is read from the package of the file. -/
theorem resolveType_follows_scope_rule (s : Session) (h : s.Reachable) (name uri : Text)
    (scope : Option Text) (nonempty : name ≠ []) (declared : name ∉ scalarTypes) :
    (∀ fullName, name = nameDot :: fullName →
      Preferred [s.workspace.TypeNamed fullName]
        ((Session.resolveType name uri scope).run s).1) ∧
    (name.head? ≠ some nameDot →
      Preferred (s.workspace.typeClasses name uri (scope.getD (s.workspace.packageOf uri)))
        ((Session.resolveType name uri scope).run s).1) := by
  rw [h.answer (.resolveType name uri scope)]
  refine ⟨?_, fun relative => ?_⟩
  · rintro fullName rfl
    rw [Session.resolveType, Query.answer_current_bind, Query.answer_ite,
      if_neg (by simp [declared]), Query.answer_ite, if_pos (List.head?_cons)]
    exact h.indexed.preferred_type? fullName
  · have inScope := h.indexed.preferred_typeInScope? (scope.getD (s.workspace.packageOf uri)) name
    rw [Workspace.answer_resolveType _ nonempty declared relative]
    have chosen := inScope.or fun nothing => h.indexed.preferred_standIn
      ((nothing ▸ inScope).empty_of_none (s.workspace.TypeNamed name) (by simp)) uri
    rwa [List.append_assoc] at chosen

/-- A session in which an extension field holds the full name of a message. -/
def heldByField : Session :=
  Session.empty.update
    (.ofText "u" "message N \x7b \x7d extend N \x7b optional int32 N = 1 ; \x7d")

/-- The message is found all the same. -/
theorem heldByField_resolves : heldByField.Reachable ∧ ("N" : Text) ≠ [] ∧
    ("N" : Text) ∉ scalarTypes ∧ ∃ t, t.kind = .message ∧
      ((Session.resolveType "N" "u" none).run heldByField).1 = some t := by
  have reachable : heldByField.Reachable := Session.Reachable.new.update "u" "u" _ none
  have nonempty : ("N" : Text) ≠ [] := by decide
  have declared : ("N" : Text) ∉ scalarTypes := by decide
  have types : ∀ t ∈ heldByField.workspace.allSymbols, t.isType = true → t.kind = .message := by
    decide +kernel
  have message : ∃ t ∈ heldByField.workspace.allSymbols, t.isType = true ∧
      t.fullName = ("N" : Text) := by decide +kernel
  have package : heldByField.workspace.packageOf "u" = [] := by decide +kernel
  have chosen := (resolveType_follows_scope_rule heldByField reachable "N" "u" none nonempty
    declared).2 (by decide)
  rw [Option.getD_none, package] at chosen
  refine ⟨reachable, nonempty, declared, ?_⟩
  generalize ((Session.resolveType "N" "u" none).run heldByField).1 = found at chosen
  cases chosen with
  | @here _ _ t has => exact ⟨t, types t has.1.1 has.1.2, rfl⟩
  | later absent =>
    obtain ⟨t, ht, type, same⟩ := message
    exact absurd ⟨⟨ht, type⟩, same⟩ (absent t)

end ProtoAtlas
