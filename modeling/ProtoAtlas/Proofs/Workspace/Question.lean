/-
# What a question does

A question answers at once, notes an event, looks an import up or looks at the workspace, one
after the other, and does nothing else to a session (`Query.Looks`).  What it finds in the
workspace are settings, files and what the index finds by a name; it cannot tell workspaces
apart that have these in common (`Workspace.Alike`).

Each question a session answers is of this kind (`Session.Asks.looks`).  All that is known of
questions follows: they leave the workspace as it is (`Query.Looks.keeps`).
-/

import ProtoAtlas.Check.File
import ProtoAtlas.Proofs.Schema.Reached
import ProtoAtlas.Workspace.References

namespace ProtoAtlas

/-! ### Workspaces that are alike -/

/-- Two indexes find the same symbols by every simple name and by every full name. -/
structure SymbolIndex.Alike (ix jx : SymbolIndex) : Prop where
  named : ∀ name, ix.named name = jx.named name
  holder? : ∀ fullName, ix.holder? fullName = jx.holder? fullName

namespace SymbolIndex.Alike

variable {ix jx : SymbolIndex} (h : ix.Alike jx)
include h

theorem type? (fullName : Text) : ix.type? fullName = jx.type? fullName := by
  unfold SymbolIndex.type?
  simp only [h.holder?, h.named]

theorem typeInScope? (scope name : Text) :
    ix.typeInScope? scope name = jx.typeInScope? scope name := by
  unfold SymbolIndex.typeInScope?
  simp only [h.type?]

theorem typesEndingIn (name : Text) : ix.typesEndingIn name = jx.typesEndingIn name := by
  rw [SymbolIndex.typesEndingIn, SymbolIndex.typesEndingIn, h.named]

theorem targets (name : Text) : ix.targets name = jx.targets name := by
  rw [SymbolIndex.targets, SymbolIndex.targets, h.named]

end SymbolIndex.Alike

/-- Two workspaces have the same settings and files, and indexes that are alike. -/
structure Workspace.Alike (v w : Workspace) : Prop where
  settings : v.settings = w.settings
  files : v.files = w.files
  index : v.index.Alike w.index

namespace Workspace.Alike

variable {v w : Workspace} (h : v.Alike w)
include h

theorem file? (uri : Text) : v.file? uri = w.file? uri := by
  rw [Workspace.file?, Workspace.file?, h.files]

theorem packageOf (uri : Text) : v.packageOf uri = w.packageOf uri := by
  rw [Workspace.packageOf, Workspace.packageOf, h.file?]

theorem symbolsIn : v.symbolsIn = w.symbolsIn := by
  funext uri
  rw [Workspace.symbolsIn, Workspace.symbolsIn, h.file?]

theorem allSymbols : v.allSymbols = w.allSymbols := by
  rw [Workspace.allSymbols, Workspace.allSymbols, h.files]

theorem findImport? (importer path : Text) :
    v.findImport? importer path = w.findImport? importer path := by
  simp only [Workspace.findImport?, Workspace.diskFiles, h.files, h.settings]

end Workspace.Alike

namespace Query

variable {α β : Type}

/-- All that a question can do. -/
inductive Looks : {α : Type} → Query α → Prop
  | pure {α : Type} (a : α) : Looks (pure a)
  | note (e : Event) : Looks (Session.note e)
  | resolveImport (importer path : Text) : Looks (Session.resolveImport importer path)
  /-- A look at the workspace, to go on in the same way in workspaces that are alike. -/
  | current {β : Type} {f : Workspace → Query β}
      (same : ∀ {v w : Workspace}, v.Alike w → f v = f w) (rest : ∀ w, Looks (f w)) :
      Looks (Session.current >>= f)
  | bind {α β : Type} {q : Query α} {f : α → Query β} (first : Looks q)
      (rest : ∀ a, Looks (f a)) : Looks (q >>= f)

namespace Looks

theorem ite {c : Prop} [Decidable c] {q r : Query α} (hq : Looks q) (hr : Looks r) :
    Looks (if c then q else r) := by
  split
  · exact hq
  · exact hr

theorem mapM {xs : List α} {f : α → Query β} (h : ∀ a ∈ xs, Looks (f a)) : Looks (xs.mapM f) := by
  induction xs with
  | nil => exact .pure []
  | cons a rest ih =>
    obtain ⟨here, later⟩ := List.forall_mem_cons.1 h
    rw [List.mapM_cons]
    exact here.bind fun b => (ih later).bind fun bs => .pure _

theorem filterMapM {xs : List α} {f : α → Query (Option β)} (h : ∀ a, Looks (f a)) :
    Looks (xs.filterMapM f) := by
  induction xs with
  | nil => exact .pure []
  | cons a rest ih =>
    rw [List.filterMapM_cons]
    refine (h a).bind fun b => ?_
    cases b with
    | none => exact ih
    | some b => exact ih.bind fun bs => .pure _

end Looks
end Query

/-! ### Each question -/

namespace Session

open Query

theorem looks_importsOf (uri : Text) : Looks (importsOf uri) := by
  refine .current (fun h => by rw [h.file?]) fun w => ?_
  split
  · exact .pure _
  · exact .mapM fun path _ => (Looks.resolveImport uri path).bind fun _ => .pure _

theorem looks_importedUris (uri : Text) : Looks (importedUris uri) :=
  (looks_importsOf uri).bind fun _ => .pure _

theorem looks_visit (steps : Nat) (visited stack : List Text) :
    Looks (visit steps visited stack) := by
  fun_induction visit steps visited stack with
  | case1 => exact .pure _
  | case2 => exact .pure _
  | case3 visited steps uri stack ih₁ ih₂ =>
    exact .current (fun h => by rw [h.file?]) fun w =>
      .ite ih₁ ((looks_importedUris uri).bind fun _ => ih₂ _)

theorem looks_visibleUris (uri : Text) : Looks (visibleUris uri) :=
  .current (fun h => by rw [visitBound, visitBound, h.files]) fun _ => looks_visit _ _ _

theorem looks_accessibleSymbols (uri : Text) : Looks (accessibleSymbols uri) :=
  (looks_visibleUris uri).bind fun _ =>
    .current (fun h => by rw [h.symbolsIn]) fun _ => .pure _

theorem looks_standIn (name uri : Text) : Looks (standIn name uri) := by
  refine .current (fun h => by rw [h.index.typesEndingIn]) fun w => .ite (.pure _) ?_
  split
  · exact .pure _
  · exact (looks_visibleUris uri).bind fun _ => .pure _

theorem looks_resolveType (name uri : Text) (scope : Option Text) :
    Looks (resolveType name uri scope) := by
  refine .current (fun h => by rw [h.index.type?, h.packageOf, h.index.typeInScope?]) fun w =>
    .ite (.pure _) (.ite (.pure _) ?_)
  split
  · exact .pure _
  · exact (looks_standIn name uri).bind fun found =>
      .ite ((Looks.note _).bind fun _ => .pure _) (.pure _)

theorem looks_completions (uri : Text) (scope : Option Text) : Looks (completions uri scope) :=
  .current (fun h => by rw [h.packageOf]) fun _ =>
    (looks_accessibleSymbols uri).bind fun _ =>
      .current (fun h => by rw [h.allSymbols]) fun _ => .pure _

theorem looks_matchSite (targets : List Text) (name uri : Text) (site : TypeSite) :
    Looks (matchSite targets name uri site) :=
  .ite (.pure _) ((looks_resolveType _ uri _).bind fun _ => .pure _)

theorem looks_findReferences (typeName : Text) : Looks (findReferences typeName) :=
  .ite (.pure _) <| .current (fun h => by rw [h.index.targets, h.files]) fun _ =>
    (Looks.mapM fun _ _ => .filterMapM fun _ => looks_matchSite _ _ _ _).bind fun _ => .pure _

end Session

namespace Check

open Query Session

theorem looks_importing (uri : Text) (earlier : List ImportDecl) (d : ImportDecl) :
    Looks (importing uri earlier d) :=
  (Looks.resolveImport uri _).bind fun _ => .pure _

theorem looks_imports (uri : Text) (f : SchemaFile) : Looks (imports uri f) :=
  (Looks.mapM fun _ _ => looks_importing uri _ _).bind fun _ => .pure _

theorem looks_declarations (uri : Text) (f : SchemaFile) : Looks (declarations uri f) :=
  (looks_imports uri f).bind fun _ => .pure _

theorem looks_resolved (uri scope : Text) (type : Name) (judge : Symbol → List Finding) :
    Looks (resolved uri scope type judge) := by
  refine (looks_resolveType _ uri _).bind fun found => ?_
  cases found with
  | none => exact .pure _
  | some s => exact .pure _

theorem looks_fieldType (uri scope : Text) (type : Name) : Looks (fieldType uri scope type) :=
  .ite (.pure _) (looks_resolved uri scope type _)

theorem looks_extendTarget (uri scope : Text) (target : Name) :
    Looks (extendTarget uri scope target) :=
  looks_resolved uri scope target _

theorem looks_rpcType (uri scope name : Text) (type : Name) :
    Looks (rpcType uri scope name type) :=
  .ite (.pure _) (looks_resolved uri scope type _)

theorem looks_rpc (uri scope : Text) (r : Rpc) : Looks (rpc uri scope r) :=
  (looks_rpcType uri scope _ _).bind fun _ => (looks_rpcType uri scope _ _).bind fun _ => .pure _

theorem looks_inTurn {order : List MemberKind} {checks : List (MemberKind × Query (List Finding))}
    (h : ∀ p ∈ checks, Looks p.2) : Looks (inTurn order checks) := by
  refine Looks.bind (.mapM fun p hp => ?_) fun _ => .pure _
  obtain ⟨kind, -, hp⟩ := List.mem_flatMap.1 hp
  exact h p (List.mem_filter.1 hp).1

theorem referencesIn_eq_map (uri scope : Text) (body : List Member) :
    referencesIn uri scope body = body.map fun m => (m.kind, references uri scope m) := by
  induction body with
  | nil => rfl
  | cons m rest ih => rw [referencesIn, ih, List.map_cons]

theorem looks_inTurn_body {uri scope : Text} (order : List MemberKind) {body : List Member}
    (h : ∀ m ∈ body, Looks (references uri scope m)) :
    Looks (inTurn order (referencesIn uri scope body)) := by
  refine looks_inTurn fun p hp => ?_
  rw [referencesIn_eq_map] at hp
  obtain ⟨m, hm, rfl⟩ := List.mem_map.1 hp
  exact h m hm

theorem looks_references (uri scope : Text) (m : Member) : Looks (references uri scope m) := by
  induction m using Member.inner_induction generalizing scope with
  | step m ih =>
    cases m with
    | field f => exact looks_fieldType uri scope f.type
    | map f => exact looks_fieldType uri scope f.value
    | group head body => exact looks_inTurn_body _ fun c hc => ih c hc _
    | message head body => exact looks_inTurn_body _ fun c hc => ih c hc _
    | oneof head body => exact looks_inTurn_body _ fun c hc => ih c hc scope
    | extend head body =>
      exact (looks_extendTarget uri scope head.target).bind fun _ =>
        (looks_inTurn_body _ fun c hc => ih c hc scope).bind fun _ => .pure _
    | _ => exact .pure _

theorem looks_referencesIn (order : List MemberKind) (uri scope : Text) (body : List Member) :
    Looks (inTurn order (referencesIn uri scope body)) :=
  looks_inTurn_body order fun m _ => looks_references uri scope m

theorem looks_rpcs (uri scope : Text) (rs : List Rpc) : Looks (rs.mapM (rpc uri scope)) :=
  .mapM fun r _ => looks_rpc uri scope r

theorem looks_typeReferences (uri : Text) (f : SchemaFile) : Looks (typeReferences uri f) :=
  (looks_referencesIn _ uri _ _).bind fun _ => (looks_rpcs uri _ _).bind fun _ => .pure _

theorem looks_file (uri : Text) : Looks (Check.file uri) := by
  refine .current (fun h => by rw [h.file?]) fun w => ?_
  split
  · exact .pure _
  · refine (looks_declarations uri _).bind fun found => ?_
    split
    · exact .pure _
    · exact (looks_typeReferences uri _).bind fun _ => .pure _

end Check

namespace Session

open Query

/-- The questions a session answers. -/
inductive Asks : {α : Type} → Query α → Prop
  | resolveImport (importer path : Text) : Asks (resolveImport importer path)
  | importsOf (uri : Text) : Asks (importsOf uri)
  | importedUris (uri : Text) : Asks (importedUris uri)
  | visibleUris (uri : Text) : Asks (visibleUris uri)
  | accessibleSymbols (uri : Text) : Asks (accessibleSymbols uri)
  | resolveType (name uri : Text) (scope : Option Text) : Asks (resolveType name uri scope)
  | completions (uri : Text) (scope : Option Text) : Asks (completions uri scope)
  | findReferences (typeName : Text) : Asks (findReferences typeName)
  | check (uri : Text) : Asks (Check.file uri)

theorem Asks.looks {α : Type} {q : Query α} (h : Asks q) : Looks q := by
  cases h with
  | resolveImport importer path => exact .resolveImport importer path
  | importsOf uri => exact looks_importsOf uri
  | importedUris uri => exact looks_importedUris uri
  | visibleUris uri => exact looks_visibleUris uri
  | accessibleSymbols uri => exact looks_accessibleSymbols uri
  | resolveType name uri scope => exact looks_resolveType name uri scope
  | completions uri scope => exact looks_completions uri scope
  | findReferences typeName => exact looks_findReferences typeName
  | check uri => exact Check.looks_file uri

/-! ### The workspace stays -/

/-- Looking an import up changes what is known, and not the workspace. -/
theorem keeps_resolveImport (importer path : Text) (s : Session) :
    ((resolveImport importer path).run s).2.workspace = s.workspace := by
  rw [resolveImport, StateT.run_bind, StateT.run_get, pure_bind]
  split
  · rfl
  · cases s.workspace.findImport? importer (Path.normalize path) with
    | none => rfl
    | some target => rfl

end Session

/-- **A question leaves the workspace as it is.** -/
theorem Query.Looks.keeps {α : Type} {q : Query α} (h : Looks q) (s : Session) :
    (q.run s).2.workspace = s.workspace := by
  induction h generalizing s with
  | pure a => rfl
  | note e => rfl
  | resolveImport importer path => exact Session.keeps_resolveImport importer path s
  | current _ _ ih => exact ih _ s
  | bind _ _ first rest => exact (rest _ _).trans (first s)

end ProtoAtlas
