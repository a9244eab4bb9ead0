/-
# The symbols of a file that was read

Every symbol of a file comes from a node of the file that has its name written in it, or it
is the field of a group (`SchemaFile.names_or_isGroupField`).  In a file that was read these
names are identifiers.  So the simple name of each of its symbols is the last part of the
full name (`SchemaFile.proper_of_mem_symbols_parse`), and a full name determines the simple
name, in whatever file it is declared.
-/

import Mathlib.Data.List.TakeWhile
import ProtoAtlas.Proofs.Grammar.TracedRules
import ProtoAtlas.Workspace.Types

namespace ProtoAtlas

/-! ### The last part of a full name -/

/-- A text without dots. -/
def Text.DotFree (t : Text) : Prop := ∀ c ∈ t, c ≠ nameDot

theorem Text.dotFree_of_isIdentifier {t : Text} (h : t.isIdentifier = true) : t.DotFree := by
  have dotStart : Segment.isIdentifierStart nameDot = false := by decide
  have dotPart : Segment.isIdentifierPart nameDot = false := by decide
  cases t with
  | nil => cases h
  | cons d ds =>
    rw [Text.isIdentifier, Bool.and_eq_true, List.all_eq_true] at h
    rintro c hc rfl
    rcases List.mem_cons.1 hc with rfl | hc
    · rw [dotStart] at h
      cases h.1
    · have := h.2 _ hc
      rw [dotPart] at this
      cases this

theorem Text.DotFree.lower {t : Text} (h : t.DotFree) : t.lower.DotFree := by
  intro c hc dot
  obtain ⟨d, hd, rfl⟩ := List.mem_map.1 hc
  apply h d hd
  unfold CodePoint.toLower at dot
  split at dot
  · next upper =>
    have : d.val + 32 = 46 := congrArg CodePoint.val dot
    have low : 65 ≤ d.val := upper.1
    omega
  · exact dot

/-- The last part of a qualified name is the name. -/
theorem simpleName_qualify (scope : Text) {name : Text} (h : name.DotFree) :
    simpleName (qualify scope name) = name := by
  have all : ∀ c ∈ name.reverse, decide (c ≠ nameDot) = true := fun c hc =>
    decide_eq_true (h c (List.mem_reverse.1 hc))
  unfold qualify
  split
  · rw [simpleName, List.takeWhile_eq_self_iff.2 all, List.reverse_reverse]
  · have reversed : (scope ++ "." ++ name : Text).reverse =
        name.reverse ++ nameDot :: scope.reverse := by
      rw [List.reverse_append, List.reverse_append]
      rfl
    rw [simpleName, reversed, List.takeWhile_append_of_pos all, List.takeWhile_cons,
      if_neg (by simp), List.append_nil, List.reverse_reverse]

/-! ### Nodes that are reached -/

theorem Node.member_mem_children {m c : Member} (h : c ∈ m.inner) :
    Node.member c ∈ (Node.member m).children := by
  cases m with
  | group head body => exact List.mem_append_right _ (List.mem_map_of_mem h)
  | oneof head body => exact List.mem_map_of_mem h
  | message head body => exact List.mem_map_of_mem h
  | extend head body => exact List.mem_map_of_mem h
  | _ => cases h

namespace SchemaFile

variable {f : SchemaFile} {uri source : Text}

theorem HasNode.of_reaches {kinds : List MemberKind} {scope scope' : Text} {m m' : Member}
    (has : f.HasNode (.member m)) (h : Member.Reaches kinds scope m scope' m') :
    f.HasNode (.member m') := by
  induction h with
  | here => exact has
  | inside mem _ _ ih => exact ih (.inside has (Node.member_mem_children mem))

/-- A member that is reached is a node. -/
theorem Reaches.hasNode {tops kinds : List MemberKind} {scope : Text} {m : Member}
    (h : f.Reaches tops kinds scope m) : f.HasNode (.member m) := by
  obtain ⟨top, htop, -, way⟩ := h
  exact .of_reaches (.top (f.sublist_members.subset (List.mem_map_of_mem htop))) way

/-- What stands in a list of a node is a node. -/
theorem HasNode.listed {n c : Node} {l : List Node} (has : f.HasNode n) (hl : l ∈ n.childLists)
    (hc : c ∈ l) : f.HasNode c :=
  .inside has (n.sorts_childLists.subset l hl hc)

theorem hasNode_service {s : Service} (h : s ∈ f.services) : f.HasNode (.service s) :=
  .top (f.sorts_childLists.subset (f.services.map .service) (by simp [childLists])
    (List.mem_map_of_mem h))

theorem HasNode.rpc {s : Service} {r : Rpc} (has : f.HasNode (.service s)) (h : r ∈ s.rpcs) :
    f.HasNode (.rpc r) :=
  has.listed List.mem_cons_self (List.mem_map_of_mem h)

theorem HasNode.enumValue {e : Enum} {v : EnumValue} (has : f.HasNode (.member (.enum e)))
    (h : v ∈ e.values) : f.HasNode (.enumValue v) :=
  has.listed List.mem_cons_self (List.mem_map_of_mem h)

/-! ### Written names -/

/-- A name or a type is written in a node of a file. -/
def Writes (f : SchemaFile) (p : Spelling × Name) : Prop := ∃ n, f.HasNode n ∧ p ∈ n.spellings

theorem Writes.exists_fits {p : Spelling × Name} (h : (parse uri source).Writes p) :
    ∃ v, v <:+: (TokenStream.ofText source).tokens ∧ Token.Covers v p.2.span ∧
      p.1.Fits v p.2.text := by
  obtain ⟨n, has, hp⟩ := h
  obtain ⟨w, sub, laid⟩ := has.exists_laid
  obtain ⟨v, sub', covers, fits⟩ := laid.spelled hp
  exact ⟨v, sub'.trans sub, covers, fits⟩

/-- A declared name is an identifier. -/
theorem Writes.dotFree {name : Name} (h : (parse uri source).Writes (.word, name)) :
    name.text.DotFree := by
  obtain ⟨v, sub, -, t, rfl, identifier, text⟩ := h.exists_fits
  have lexed := Token.lexed_of_mem_tokens (sub.subset (List.mem_singleton_self t))
  exact Text.dotFree_of_isIdentifier (text ▸ lexed.identifier identifier)

/-! ### Symbols -/

/-- A symbol is the field that a group of a file declares. -/
def IsGroupField (f : SchemaFile) (uri : Text) (t : Symbol) : Prop :=
  ∃ scope head body, f.HasNode (.member (.group head body)) ∧
    t = Symbol.declare uri .field scope head.fieldName head.name.span head.info

/-- A symbol is declared under a name that is written in a file. -/
def Names (f : SchemaFile) (uri : Text) (t : Symbol) : Prop :=
  ∃ kind scope, ∃ name : Name, ∃ info, f.Writes (.word, name) ∧
    t = Symbol.declare uri kind scope name.text name.span info

theorem names_of_mem_entering {scope : Text} {m : Member} {t : Symbol}
    (has : f.HasNode (.member m)) (ht : t ∈ Symbol.entering uri scope m) : f.Names uri t := by
  cases m with
  | field g =>
    rw [List.mem_singleton.1 ht]
    exact ⟨_, _, g.name, _, ⟨_, has, by simp [Node.spellings, Member.spellings]⟩, rfl⟩
  | map g =>
    rw [List.mem_singleton.1 ht]
    exact ⟨_, _, g.name, _, ⟨_, has, by simp [Node.spellings, Member.spellings]⟩, rfl⟩
  | group head body =>
    rw [List.mem_singleton.1 ht]
    exact ⟨_, _, head.name, _, ⟨_, has, List.mem_cons_self⟩, rfl⟩
  | oneof head body =>
    rw [List.mem_singleton.1 ht]
    exact ⟨_, _, head.name, _, ⟨_, has, List.mem_cons_self⟩, rfl⟩
  | message head body =>
    rw [List.mem_singleton.1 ht]
    exact ⟨_, _, head.name, _, ⟨_, has, List.mem_cons_self⟩, rfl⟩
  | enum e =>
    rcases List.mem_cons.1 ht with rfl | ht
    · exact ⟨_, _, e.name, _, ⟨_, has, List.mem_cons_self⟩, rfl⟩
    · obtain ⟨v, hv, rfl⟩ := List.mem_map.1 ht
      exact ⟨_, _, v.name, _, ⟨_, has.enumValue hv, List.mem_cons_self⟩, rfl⟩
  | _ => cases ht

theorem names_of_mem_ofService {scope : Text} {s : Service} {t : Symbol} (h : s ∈ f.services)
    (ht : t ∈ Symbol.ofService uri scope s) : f.Names uri t := by
  have has := hasNode_service h
  rcases List.mem_cons.1 ht with rfl | ht
  · exact ⟨_, _, s.name, _, ⟨_, has, List.mem_cons_self⟩, rfl⟩
  · obtain ⟨r, hr, rfl⟩ := List.mem_map.1 ht
    exact ⟨_, _, r.name, _, ⟨_, has.rpc hr, List.mem_cons_self⟩, rfl⟩

/-- **Every symbol of a file stands for a name in it, or is the field of a group.** -/
theorem names_or_isGroupField {t : Symbol} (h : t ∈ f.symbols uri) :
    f.Names uri t ∨ f.IsGroupField uri t := by
  have walked : ∀ {tops}, t ∈ (Symbol.walk uri).file tops f →
      f.Names uri t ∨ f.IsGroupField uri t := by
    intro tops ht
    obtain ⟨scope, m, reached, entering | leaving⟩ := Walk.mem_file_iff.1 ht
    · exact Or.inl (names_of_mem_entering reached.hasNode entering)
    · cases m with
      | group head body =>
        exact Or.inr ⟨scope, head, body, reached.hasNode, List.mem_singleton.1 leaving⟩
      | _ => cases leaving
  rw [symbols, List.mem_append, List.mem_append] at h
  rcases h with (h | h) | h
  · exact walked h
  · obtain ⟨s, hs, ht⟩ := List.mem_flatMap.1 h
    exact Or.inl (names_of_mem_ofService hs ht)
  · exact walked h

end SchemaFile

/-! ### Proper symbols -/

/-- A symbol of a file, whose simple name is the last part of its full name. -/
structure Symbol.Proper (uri : Text) (s : Symbol) : Prop where
  uri : s.uri = uri
  last : simpleName s.fullName = s.name

theorem Symbol.proper_declare (uri : Text) (kind : SymbolKind) (scope : Text) {name : Text}
    (span : Span) (info : NodeInfo) (h : name.DotFree) :
    (declare uri kind scope name span info).Proper uri :=
  ⟨rfl, simpleName_qualify scope h⟩

/-- **The symbols of a file that was read are proper.** -/
theorem SchemaFile.proper_of_mem_symbols_parse (uri treeUri source : Text) :
    ∀ s ∈ (parse treeUri source).symbols uri, s.Proper uri := by
  intro s hs
  rcases names_or_isGroupField hs with
    ⟨kind, scope, name, info, writes, rfl⟩ | ⟨scope, head, body, has, rfl⟩
  · exact Symbol.proper_declare _ _ _ _ _ writes.dotFree
  · have writes : (parse treeUri source).Writes (.word, head.name) := ⟨_, has, List.mem_cons_self⟩
    exact Symbol.proper_declare _ _ _ _ _ writes.dotFree.lower

end ProtoAtlas
