/-
# The symbols of a file are its declarations

Each node of a file declares the symbols of its own names, in the scope it stands in
(`Node.declared`): one for a message, an enum, an enum value, a field, a map field, a oneof,
a service or a procedure, two for a group, and none for anything else.  The symbols that a
file has are those its nodes declare, all of them and each once (`SchemaFile.perm_symbols`).

The walk lists them kind by kind, and leaves out the kinds that its order does not name.
Nothing is lost by that: a kind that is left out declares nothing, in a body
(`Symbol.visited_or_silent`) as well as at the top of a file, where only messages, enums,
extend blocks and options can stand (`SchemaFile.kind_of_mem_members`).
-/

import Mathlib.Data.List.Perm.Basic
import ProtoAtlas.Proofs.Grammar.TracedRules
import ProtoAtlas.Proofs.Schema.Listed
import ProtoAtlas.Proofs.Workspace.References

namespace ProtoAtlas
namespace Node

/-- The symbols that a node declares in the scope it stands in. -/
def declared (uri scope : Text) : Node → List Symbol
  | .service s => [.declare uri .service scope s.name.text s.name.span s.info]
  | .rpc r => [.declare uri .rpc scope r.name.text r.name.span r.info]
  | .enumValue v => [.declare uri .enumValue scope v.name.text v.name.span v.info]
  | .member (.field f) => [.declare uri .field scope f.name.text f.name.span f.info]
  | .member (.map m) => [.declare uri .field scope m.name.text m.name.span m.info]
  | .member (.group h _) =>
    [.declare uri .message scope h.name.text h.name.span h.info,
      .declare uri .field scope h.name.text.lower h.name.span h.info]
  | .member (.oneof h _) => [.declare uri .oneof scope h.name.text h.name.span h.info]
  | .member (.message h _) => [.declare uri .message scope h.name.text h.name.span h.info]
  | .member (.enum e) => [.declare uri .enum scope e.name.text e.name.span e.info]
  | _ => []

/-- The symbols that a node and all nodes inside it declare. -/
def allDeclared (uri scope : Text) (n : Node) : List Symbol :=
  (n.listed scope).flatMap fun p => p.2.declared uri p.1

variable {uri scope : Text}

theorem allDeclared_eq (uri scope : Text) (n : Node) : n.allDeclared uri scope =
    n.declared uri scope ++ n.children.flatMap (allDeclared uri (n.innerScope scope)) :=
  flatMap_listed _ scope n

/-- A node with nothing inside declares its own symbols. -/
theorem allDeclared_of_children_eq_nil {n : Node} (h : n.children = []) :
    n.allDeclared uri scope = n.declared uri scope := by
  rw [allDeclared_eq, h, List.flatMap_nil, List.append_nil]

theorem flatMap_allDeclared_options (os : List OptionDecl) :
    (os.map OptionDecl.node).flatMap (allDeclared uri scope) = [] := by
  rw [List.flatMap_map, List.flatMap_eq_nil_iff]
  exact fun o _ => allDeclared_of_children_eq_nil rfl

/-- A node with nothing but options inside declares its own symbols. -/
theorem allDeclared_of_children_eq_options {n : Node} {os : List OptionDecl}
    (h : n.children = os.map OptionDecl.node) :
    n.allDeclared uri scope = n.declared uri scope := by
  rw [allDeclared_eq, h, flatMap_allDeclared_options, List.append_nil]

/-- A member that is no enum declares its own symbols and those of the members inside. -/
theorem allDeclared_member {m : Member} (other : m.kind ≠ .enum) :
    (member m).allDeclared uri scope = Symbol.entering uri scope m ++ Symbol.leaving uri scope m ++
      m.inner.flatMap fun c => (member c).allDeclared uri (m.innerScope scope) := by
  cases m with
  | field | map | extensions => exact allDeclared_of_children_eq_options rfl
  | option | reserved => exact allDeclared_of_children_eq_nil rfl
  | oneof | message | extend =>
    rw [allDeclared_eq, children, List.flatMap_map]
    rfl
  | group head body =>
    rw [allDeclared_eq, children, List.flatMap_append, flatMap_allDeclared_options,
      List.nil_append, List.flatMap_map]
    rfl
  | enum e => exact absurd rfl other

/-- What is declared by members of which some have a symbol and the others have none. -/
theorem flatMap_eq_map_filterMap {α β γ : Type} {pick : α → Option β} {symbol : β → γ}
    {collect : α → List γ} (h : ∀ a, collect a = ((pick a).map symbol).toList) (l : List α) :
    l.flatMap collect = (l.filterMap pick).map symbol := by
  rw [List.map_filterMap, List.filterMap_eq_flatMap_toList]
  exact List.flatMap_congr fun a _ => h a

theorem allDeclared_enum (e : Enum) :
    (member (.enum e)).allDeclared uri scope = Symbol.ofEnum uri scope e := by
  rw [allDeclared_eq, children, List.flatMap_map]
  refine congrArg (_ :: ·) (flatMap_eq_map_filterMap (fun m => ?_) e.members)
  cases m with
  | value v => exact allDeclared_of_children_eq_options rfl
  | option o => exact allDeclared_of_children_eq_nil rfl
  | reserved r => exact allDeclared_of_children_eq_nil rfl

theorem allDeclared_service (s : Service) :
    (service s).allDeclared uri scope = Symbol.ofService uri scope s := by
  rw [allDeclared_eq, children, List.flatMap_map]
  refine congrArg (_ :: ·) (flatMap_eq_map_filterMap (fun m => ?_) s.members)
  cases m with
  | rpc r => exact allDeclared_of_children_eq_options rfl
  | option o => exact allDeclared_of_children_eq_nil rfl

end Node

namespace Symbol

/-- A kind of members that the walk leaves out declares nothing. -/
theorem visited_or_silent (uri scope : Text) (m : Member) :
    m.kind ∈ (walk uri).order ∨ (walk uri).member scope m = [] := by
  cases m with
  | option | reserved | extensions =>
    right
    rw [Walk.member]
    rfl
  | _ =>
    left
    simp [walk, Member.kind]

variable {uri scope : Text}

/-- **The symbols of a member are those that it and the nodes inside it declare.** -/
theorem perm_member (scope : Text) (m : Member) :
    ((walk uri).member scope m).Perm ((Node.member m).allDeclared uri scope) := by
  induction m using Member.inner_induction generalizing scope with
  | step m ih =>
    by_cases isEnum : m.kind = .enum
    · cases m with
      | enum e =>
        rw [Walk.member, Node.allDeclared_enum]
        exact List.Perm.of_eq (List.append_nil _)
      | _ => cases isEnum
    · -- What a group declares behind its body moves in front of it.
      have once : (walk uri).order.Nodup := by
        simp only [walk]
        decide
      have inside := Walk.perm_body once (fun c _ => visited_or_silent uri _ c)
        fun c hc => ih c hc (m.innerScope scope)
      rw [Walk.member_eq, Node.allDeclared_member isEnum, List.append_assoc, List.append_assoc]
      refine List.Perm.append_left _ ?_
      exact (inside.append_right _).trans List.perm_append_comm

end Symbol

namespace SchemaFile

/-! ### All symbols of a file -/

/-- The symbols that the nodes of a file declare, in source order. -/
def declared (uri : Text) (f : SchemaFile) : List Symbol :=
  f.listed.flatMap fun p => p.2.declared uri p.1

theorem declared_eq (uri : Text) (f : SchemaFile) :
    f.declared uri = f.items.flatMap fun i => i.node.allDeclared uri f.packageName := by
  rw [declared, listed, List.flatMap_assoc, children, List.flatMap_map]
  rfl

/-- What the nodes of a file declare is declared in its members and its services. -/
theorem perm_declared (uri : Text) (f : SchemaFile) :
    ((f.members.flatMap fun m => (Node.member m).allDeclared uri f.packageName) ++
      f.services.flatMap (Symbol.ofService uri f.packageName)).Perm (f.declared uri) := by
  have services : f.services.flatMap (Symbol.ofService uri f.packageName) =
      f.services.flatMap fun s => (Node.service s).allDeclared uri f.packageName :=
    List.flatMap_congr fun s _ => (Node.allDeclared_service s).symm
  rw [declared_eq, services]
  refine f.perm_items (fun i => i.node.allDeclared uri f.packageName) fun i => ?_
  cases i with
  | member | service => trivial
  | _ => exact Node.allDeclared_of_children_eq_nil rfl

/-- **The symbols of a file are those that its nodes declare**, each as often. -/
theorem perm_symbols (uri treeUri source : Text) :
    ((parse treeUri source).symbols uri).Perm ((parse treeUri source).declared uri) := by
  have all : ∀ m ∈ (parse treeUri source).members, m.kind ∈ [MemberKind.message, .enum, .extend] ∨
      (Symbol.walk uri).member (parse treeUri source).packageName m = [] := by
    intro m hm
    rcases Symbol.visited_or_silent uri (parse treeUri source).packageName m with visited | silent
    · have top := kind_of_mem_members hm
      simp only [Symbol.walk] at visited
      left
      revert top visited
      cases m.kind <;> decide
    · exact Or.inr silent
  have members := Walk.perm_body (by decide) all fun m _ => Symbol.perm_member _ m
  refine List.Perm.trans ?_ (perm_declared uri _)
  refine List.Perm.trans ?_ (members.append_right _)
  rw [symbols, Walk.file, Walk.file, List.append_assoc]
  -- Services stand between the two walks, which together visit three kinds.
  change List.Perm _ (Walk.inOrder ([.message, .enum] ++ [.extend]) _ ++ _)
  rw [Walk.inOrder_append, List.append_assoc]
  exact List.perm_append_comm.append_left _

end SchemaFile

/-! ### Where symbols are declared -/

/-- The kinds of symbols that others are declared in. -/
def SymbolKind.holders : List SymbolKind := [.message, .enum, .service]

namespace Symbol

/-- A symbol is declared in a scope, with a full name made of the scope and its name. -/
structure DeclaredIn (scope : Text) (t : Symbol) : Prop where
  container : t.container = if scope.isEmpty then none else some scope
  fullName : t.fullName = qualify scope t.name

theorem DeclaredIn.getD_container {scope : Text} {t : Symbol} (h : t.DeclaredIn scope) :
    t.container.getD [] = scope := by
  rw [h.container]
  cases scope <;> rfl

theorem DeclaredIn.container_eq_some {scope : Text} {t : Symbol} (h : t.DeclaredIn scope)
    (ne : scope ≠ []) : t.container = some scope := by
  rw [h.container, if_neg (by simpa using ne)]

end Symbol

namespace Node

variable {uri scope : Text}

/-- A node declares its symbols in the scope it stands in. -/
theorem declaredIn_of_mem {n : Node} {t : Symbol} (h : t ∈ n.declared uri scope) :
    t.DeclaredIn scope := by
  have one : ∀ {kind name span info},
      t ∈ [Symbol.declare uri kind scope name span info] → t.DeclaredIn scope := by
    intro kind name span info ht
    rw [List.mem_singleton.1 ht]
    exact ⟨rfl, rfl⟩
  cases n with
  | service | rpc | enumValue => exact one h
  | member m =>
    cases m with
    | group head body =>
      rcases List.mem_cons.1 h with rfl | h
      · exact ⟨rfl, rfl⟩
      · exact one h
    | option | reserved | extensions | extend => cases h
    | _ => exact one h
  | _ => cases h

/-- A node with a scope of its own declares the symbol whose full name the scope is. -/
theorem innerScope_eq_or (uri scope : Text) (n : Node) : n.innerScope scope = scope ∨
    ∃ t ∈ n.declared uri scope, t.kind ∈ SymbolKind.holders ∧ n.innerScope scope = t.fullName := by
  cases n with
  | service s =>
    exact Or.inr ⟨_, List.mem_cons_self, by simp [Symbol.declare, SymbolKind.holders], rfl⟩
  | member m =>
    cases m with
    | message | group | enum =>
      exact Or.inr ⟨_, List.mem_cons_self, by simp [Symbol.declare, SymbolKind.holders], rfl⟩
    | _ => exact Or.inl rfl
  | _ => exact Or.inl rfl

/-- **Every scope inside a node is the scope around it or the full name of a symbol declared
in it.** -/
theorem scope_of_mem_listed {n : Node} {p : Text × Node} (h : p ∈ n.listed scope) : p.1 = scope ∨
    ∃ t ∈ n.allDeclared uri scope, t.kind ∈ SymbolKind.holders ∧ p.1 = t.fullName := by
  induction n using children_induction generalizing scope with
  | step n ih =>
    rw [listed_eq] at h
    rcases List.mem_cons.1 h with rfl | h
    · exact Or.inl rfl
    · obtain ⟨c, hc, h⟩ := List.mem_flatMap.1 h
      rw [allDeclared_eq]
      rcases ih c hc h with here | ⟨t, ht, holds⟩
      · rcases innerScope_eq_or uri scope n with same | ⟨t, ht, kind, name⟩
        · exact Or.inl (here.trans same)
        · exact Or.inr ⟨t, List.mem_append_left _ ht, kind, here.trans name⟩
      · exact Or.inr ⟨t, List.mem_append_right _ (List.mem_flatMap.2 ⟨c, hc, ht⟩), holds⟩

end Node

namespace SchemaFile

theorem scope_of_mem_listed {uri : Text} {f : SchemaFile} {p : Text × Node} (h : p ∈ f.listed) :
    p.1 = f.packageName ∨ ∃ t ∈ f.declared uri, t.kind ∈ SymbolKind.holders ∧ p.1 = t.fullName := by
  obtain ⟨n, hn, h⟩ := List.mem_flatMap.1 h
  rcases Node.scope_of_mem_listed h with top | ⟨t, ht, holds⟩
  · exact Or.inl top
  · obtain ⟨i, hi, rfl⟩ := List.mem_map.1 hn
    rw [declared_eq]
    exact Or.inr ⟨t, List.mem_flatMap.2 ⟨i, hi, ht⟩, holds⟩

end SchemaFile

/-- A name inside a scope is not empty. -/
theorem qualify_ne_nil (scope : Text) {name : Text} (h : name ≠ []) : qualify scope name ≠ [] := by
  unfold qualify
  split
  · exact h
  · exact fun empty => h (List.append_eq_nil_iff.1 empty).2

namespace Symbol

/-- A symbol that has its place among those of a file: it has the full name of a proper name
in its container, which is the package or one of the messages, enums and services. -/
structure Placed (package : Text) (symbols : List Symbol) (t : Symbol) : Prop where
  fullName : t.fullName = qualify (t.container.getD []) t.name
  nonempty : t.name ≠ []
  dotFree : t.name.DotFree
  container : t.container.getD [] = package ∨
    ∃ c ∈ symbols, c.kind ∈ SymbolKind.holders ∧ t.container = some c.fullName

theorem placed_of_mem_symbols {uri treeUri source : Text} {t : Symbol}
    (h : t ∈ (SchemaFile.parse treeUri source).symbols uri) :
    t.Placed (SchemaFile.parse treeUri source).packageName
      ((SchemaFile.parse treeUri source).symbols uri) := by
  have perm := SchemaFile.perm_symbols uri treeUri source
  have nonempty := SchemaFile.name_ne_nil_of_mem_symbols h
  have dotFree : t.name.DotFree := by
    rw [← (SchemaFile.proper_of_mem_symbols_parse uri treeUri source t h).last]
    exact dotFree_simpleName t.fullName
  obtain ⟨p, hp, ht⟩ := List.mem_flatMap.1 (perm.subset h)
  have here := Node.declaredIn_of_mem ht
  refine ⟨by rw [here.getD_container, here.fullName], nonempty, dotFree, ?_⟩
  rcases SchemaFile.scope_of_mem_listed hp with top | ⟨c, hc, holds, full⟩
  · exact Or.inl (here.getD_container.trans top)
  · have listed : c ∈ (SchemaFile.parse treeUri source).symbols uri := perm.symm.subset hc
    obtain ⟨q, -, hc⟩ := List.mem_flatMap.1 hc
    have ne : c.fullName ≠ [] := by
      rw [(Node.declaredIn_of_mem hc).fullName]
      exact qualify_ne_nil q.1 (SchemaFile.name_ne_nil_of_mem_symbols listed)
    rw [full] at here
    exact Or.inr ⟨c, listed, holds, here.container_eq_some ne⟩

end Symbol

/-- **The symbols of a file are exactly its declarations.**  When a file has been loaded, its
symbols are those that its nodes declare, none left out, none twice and no others.  Each has
a proper name, and its full name is that name in its container, which is the package of the
file or one of the messages, enums and services among the symbols. -/
theorem symbols_are_declarations (s : Session) (uri treeUri source : Text)
    (logical : Option Text) :
    ((s.update (FileRecord.ofTree uri (SchemaFile.parse treeUri source)
        logical)).workspace.symbolsIn uri).Perm
      ((SchemaFile.parse treeUri source).declared uri) ∧
    ∀ t ∈ (s.update (FileRecord.ofTree uri (SchemaFile.parse treeUri source)
        logical)).workspace.symbolsIn uri,
      t.Placed (SchemaFile.parse treeUri source).packageName
        ((s.update (FileRecord.ofTree uri (SchemaFile.parse treeUri source)
          logical)).workspace.symbolsIn uri) := by
  rw [Session.symbolsIn_update]
  exact ⟨SchemaFile.perm_symbols uri treeUri source, fun t ht => Symbol.placed_of_mem_symbols ht⟩

end ProtoAtlas
