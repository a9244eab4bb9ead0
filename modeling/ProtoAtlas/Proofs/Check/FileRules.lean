/-
# The rules of files

`FileRules` says what a loaded file must be like, over all bodies, enums and references
that are reached in its tree.  The check of a file reports an error exactly where one of
these rules is broken (`check_decides_file_rules`).

The check answers with the findings in words, and it gives no answer at all if one of
them has no text.  The findings name only numbers of the tree (`number_of_mem_findings`),
so it does give one if these numbers have at most `maxDecimalDigits` digits.
-/

import ProtoAtlas.Proofs.Check.BodyRules
import ProtoAtlas.Proofs.Check.References

namespace ProtoAtlas

/-! ### The numbers of a file -/

/-- The numbers a member has itself. -/
def Member.numbers : Member → List Int
  | .field f => [f.number]
  | .map m => [m.number]
  | .group h _ => [h.number]
  | .enum e => e.values.map (·.number)
  | _ => []

/-- All kinds of members. -/
def MemberKind.all : List MemberKind :=
  [.field, .map, .group, .oneof, .message, .enum, .extend, .option, .reserved, .extensions]

theorem MemberKind.mem_all (k : MemberKind) : k ∈ MemberKind.all := by
  cases k <;> decide

/-- The numbers of the fields and enum values of a file, at any depth. -/
def SchemaFile.numbers (f : SchemaFile) : List Int :=
  (f.reached MemberKind.all MemberKind.all).flatMap (·.2.numbers)

namespace SchemaFile

variable {f : SchemaFile} {tops kinds : List MemberKind} {scope : Text} {m : Member}

theorem Reaches.all (reached : f.Reaches tops kinds scope m) :
    f.Reaches MemberKind.all MemberKind.all scope m :=
  reached.mono (fun k _ => k.mem_all) fun k _ => k.mem_all

theorem Reaches.mem_numbers (reached : f.Reaches tops kinds scope m) {n : Int}
    (hn : n ∈ m.numbers) : n ∈ f.numbers :=
  List.mem_flatMap.2 ⟨(scope, m), mem_reached.2 reached.all, hn⟩

/-- The numbers of the slots of a body are numbers of the file. -/
theorem Reaches.slot_mem_numbers (reached : f.Reaches tops kinds scope m) {s : Check.Slot}
    (hs : s ∈ Check.Slot.ofBody m.inner) : s.number ∈ f.numbers := by
  have inner : ∀ {scope : Text} {o : Member}, f.Reaches MemberKind.all MemberKind.all scope o →
      ∀ {c : Member} {n : Int}, c ∈ o.inner → n ∈ c.numbers → n ∈ f.numbers :=
    fun reached c _ hc hn => (reached.child hc c.kind.mem_all).mem_numbers hn
  simp only [Check.Slot.ofBody, Check.Slot.ofOneof, List.mem_append, List.mem_map,
    List.mem_flatMap] at hs
  rcases hs with ((⟨g, hg, rfl⟩ | ⟨g, hg, rfl⟩) | ⟨g, hg, rfl⟩) |
    ⟨o, ho, ⟨g, hg, rfl⟩ | ⟨g, hg, rfl⟩⟩
  · exact inner reached.all (Member.mem_fields.1 hg) List.mem_cons_self
  · exact inner reached.all (Member.mem_maps.1 hg) List.mem_cons_self
  · exact inner reached.all (Member.mem_groups.1 hg) List.mem_cons_self
  · have reached' := reached.all.child (Member.mem_oneofs.1 ho) (MemberKind.mem_all _)
    exact inner reached' (Member.mem_fields.1 hg) List.mem_cons_self
  · have reached' := reached.all.child (Member.mem_oneofs.1 ho) (MemberKind.mem_all _)
    exact inner reached' (Member.mem_groups.1 hg) List.mem_cons_self

end SchemaFile

namespace Check

open Query Session

/-! ### Findings and issues -/

/-- All that is found in the file with a URI. -/
def findings (w : Workspace) (uri : Text) : List Finding :=
  match w.file? uri with
  | none => [⟨.notLoaded uri, none⟩]
  | some r => (declarations uri r.tree).answer w ++ (typeReferences uri r.tree).answer w

theorem issues?_append (uri : Text) (found found' : List Finding) :
    issues? uri (found ++ found') =
      (issues? uri found).bind fun first => (issues? uri found').map (first ++ ·) := by
  unfold issues?
  rw [List.mapM_append]
  cases found.mapM (Finding.issue? uri) with
  | none => rfl
  | some first =>
    cases found'.mapM (Finding.issue? uri) with
    | none => rfl
    | some second => rfl

/-- A check puts its findings into words. -/
theorem answer_file (w : Workspace) (uri : Text) :
    (Check.file uri).answer w = issues? uri (findings w uri) := by
  rw [Check.file, answer_current_bind, findings]
  cases w.file? uri with
  | none => rfl
  | some r =>
    dsimp only
    rw [issues?_append]
    refine (answer_bind (looks_declarations uri r.tree) (fun found => ?_) w).trans ?_
    · split
      · exact .pure _
      · exact (looks_typeReferences uri r.tree).bind fun _ => .pure _
    · cases issues? uri ((declarations uri r.tree).answer w) with
      | none => rfl
      | some first =>
        exact answer_bind (looks_typeReferences uri r.tree) (fun _ => .pure _) w

/-- Putting findings into words keeps how bad they are. -/
theorem map_severity_of_issues? {uri : Text} {found : List Finding} {issues : List Issue}
    (worded : issues? uri found = some issues) :
    issues.map (·.severity) = found.map (·.problem.severity) := by
  induction found generalizing issues with
  | nil =>
    obtain rfl := Option.some.inj worded
    rfl
  | cons x rest ih =>
    rw [issues?, List.mapM_cons] at worded
    obtain ⟨issue, first, others⟩ := Option.bind_eq_some_iff.1 worded
    obtain ⟨issues', second, same⟩ := Option.bind_eq_some_iff.1 others
    obtain rfl := Option.some.inj same
    obtain ⟨message, -, rfl⟩ := Option.map_eq_some_iff.1 first
    rw [List.map_cons, List.map_cons, ih second]

/-- An issue that is an error comes from a finding that is one. -/
theorem errors_eq_nil_iff {uri : Text} {found : List Finding} {issues : List Issue}
    (worded : issues? uri found = some issues) :
    Issue.errors issues = [] ↔ Faultless found := by
  have same : (∀ v ∈ issues.map (·.severity), v ≠ .error) ↔
      ∀ v ∈ found.map (·.problem.severity), v ≠ .error := by
    rw [map_severity_of_issues? worded]
  rw [List.forall_mem_map, List.forall_mem_map] at same
  rw [Issue.errors, List.filter_eq_nil_iff]
  simpa only [decide_eq_true_eq, Faultless, Finding.isError, decide_eq_false_iff_not] using same

/-- Findings can be put into words if the numbers that they name can. -/
theorem issues?_isSome (uri : Text) {found : List Finding}
    (short : ∀ x ∈ found, ∀ n, x.problem.number? = some n →
      n.natAbs < Nat.pow 10 maxDecimalDigits) : ∃ issues, issues? uri found = some issues := by
  induction found with
  | nil => exact ⟨[], rfl⟩
  | cons x rest ih =>
    obtain ⟨issues, others⟩ := ih fun y hy => short y (List.mem_cons_of_mem _ hy)
    obtain ⟨message, first⟩ := Option.isSome_iff_exists.1
      (Problem.message?_isSome (short x List.mem_cons_self))
    refine ⟨⟨x.problem.severity, message, x.span.map (⟨uri, ·⟩)⟩ :: issues, ?_⟩
    rw [issues?] at others ⊢
    rw [List.mapM_cons, Finding.issue?, first, others]
    rfl

/-! ### The rules of a file -/

/-- A name means a type, read from a scope of a file, or it is scalar. -/
def MeansType (w : Workspace) (uri scope name : Text) : Prop :=
  name ∈ scalarTypes ∨ ∃ t, (resolveType name uri (some scope)).answer w = some t

/-- A name means a message, read from a scope of a file. -/
def MeansMessage (w : Workspace) (uri scope name : Text) : Prop :=
  ∃ t, (resolveType name uri (some scope)).answer w = some t ∧ t.kind = .message

/-- What a file that is loaded under a URI must be like.  Bodies are reached from the
messages of the file through messages, groups and oneofs, and enums also directly from
the file; references stand at any depth in its messages and extend blocks, and in its
services. -/
structure FileRules (w : Workspace) (uri : Text) (f : SchemaFile) : Prop where
  noFaults : f.faults = []
  level : ∀ d, f.syntaxDecl? = some d → d.version = "proto2" ∨ d.version = "proto3"
  imports : ∀ d ∈ f.imports, ∃ target, (resolveImport uri d.path.text).answer w = some target
  bodies : ∀ scope m, f.Reaches [.message] [.message, .group, .oneof] scope m →
    m.kind = .message ∨ m.kind = .group → BodyRules (isLevel3 f) m.inner
  enums : ∀ scope e, f.Reaches [.message, .enum] [.message, .group, .oneof, .enum] scope (.enum e) →
    EnumRules (isLevel3 f) e
  fields : ∀ scope g, f.Reaches [.message, .extend] MemberKind.all scope (.field g) →
    MeansType w uri scope g.type.text
  maps : ∀ scope g, f.Reaches [.message, .extend] MemberKind.all scope (.map g) →
    MeansType w uri scope g.value.text
  targets : ∀ scope h body,
    f.Reaches [.message, .extend] MemberKind.all scope (.extend h body) →
      MeansMessage w uri scope h.target.text
  rpcs : ∀ service ∈ f.services, ∀ rpc ∈ service.rpcs,
    MeansMessage w uri f.packageName rpc.request.text ∧
      MeansMessage w uri f.packageName rpc.response.text

/-! ### Each part of a check finds an error where a rule is broken -/

variable {w : Workspace} {uri : Text} {f : SchemaFile}

theorem faultless_level_iff : Faultless (level f) ↔
    ∀ d, f.syntaxDecl? = some d → d.version = "proto2" ∨ d.version = "proto3" := by
  unfold level
  split
  · next none _ =>
    rw [none]
    refine iff_of_true (fun x hx => ?_) (fun d hd => nomatch hd)
    obtain rfl := List.mem_singleton.1 hx
    rfl
  · next none _ =>
    rw [none]
    exact iff_of_true faultless_nil (fun d hd => nomatch hd)
  · next d declared =>
    rw [declared, faultless_findIf rfl, Bool.and_eq_false_iff, decide_eq_false_iff_not,
      decide_eq_false_iff_not, Classical.not_not, Classical.not_not]
    exact ⟨fun known e same => Option.some.inj same ▸ known, fun known => known d rfl⟩

/-- The findings about imports. -/
theorem answer_imports : (imports uri f).answer w =
    withEarlier (fun earlier d => (importing uri earlier d).answer w) f.imports := by
  rw [imports, answer_bind (.mapM fun _ _ => looks_importing uri _ _) fun _ => .pure _,
    answer_mapM fun _ _ => looks_importing uri _ _]
  rfl

theorem faultless_imports_iff : Faultless ((imports uri f).answer w) ↔
    ∀ d ∈ f.imports, ∃ target, (resolveImport uri d.path.text).answer w = some target := by
  rw [answer_imports, faultless_withEarlier, List.forall_mem_iff_forall_getElem]
  refine forall₂_congr fun i h => ?_
  rw [importing, answer_bind (.resolveImport uri _) fun _ => .pure _, answer_pure,
    faultless_append, faultless_findIf (p := .importMissing _) rfl, Option.isNone_eq_false_iff,
    Option.isSome_iff_exists]
  exact and_iff_right (faultless_findIf_warning rfl)

/-- No error is found in the bodies if none is found in any that is reached. -/
theorem faultless_bodies : Faultless (bodies f) ↔
    ∀ scope m, f.Reaches [.message, .enum] [.message, .group, .oneof, .enum] scope m →
      Faultless ((walk (isLevel3 f)).enter scope m) := by
  constructor
  · intro all scope m reached x hx
    exact all x (Walk.mem_file_iff.2 ⟨scope, m, reached, Or.inl hx⟩)
  · intro all x hx
    obtain ⟨scope, m, reached, entering | leaving⟩ := Walk.mem_file_iff.1 hx
    · exact all scope m reached x entering
    · cases leaving

theorem faultless_bodies_iff : Faultless (bodies f) ↔
    (∀ scope m, f.Reaches [.message] [.message, .group, .oneof] scope m →
      m.kind = .message ∨ m.kind = .group → BodyRules (isLevel3 f) m.inner) ∧
    (∀ scope e, f.Reaches [.message, .enum] [.message, .group, .oneof, .enum] scope (.enum e) →
      EnumRules (isLevel3 f) e) := by
  rw [faultless_bodies]
  constructor
  · intro all
    refine ⟨fun scope m reached kind => ?_, fun scope e reached => ?_⟩
    · have found := all scope m (reached.mono (by simp) (by simp))
      cases m with
      | message h body => exact faultless_messageBody_iff.1 found
      | group h body => exact faultless_messageBody_iff.1 found
      | _ => rcases kind with kind | kind <;> cases kind
    · exact faultless_enum_iff.1 (all scope _ reached)
  · rintro ⟨bodies, enums⟩ scope m reached
    have narrow : m.kind ≠ .enum → f.Reaches [.message] [.message, .group, .oneof] scope m := by
      intro last
      refine reached.narrow ?_ ?_ (fun c inner => ?_) fun c inner => ?_
      · simp [last]
      · simp [last]
      · simp [c.kind_ne_enum inner]
      · simp [c.kind_ne_enum inner]
    cases m with
    | message h body =>
      exact faultless_messageBody_iff.2
        (bodies scope _ (narrow (by simp [Member.kind])) (Or.inl rfl))
    | group h body =>
      exact faultless_messageBody_iff.2
        (bodies scope _ (narrow (by simp [Member.kind])) (Or.inr rfl))
    | enum e => exact faultless_enum_iff.2 (enums scope e reached)
    | _ => exact faultless_nil

/-- A scalar type is no symbol. -/
theorem answer_resolveType_scalar {name : Text} (scalar : name ∈ scalarTypes)
    (scope : Option Text) : (resolveType name uri scope).answer w = none := by
  rw [resolveType, answer_current_bind, answer_ite, if_pos (by simp [scalar])]
  rfl

/-- What a reference must mean. -/
def SiteRule (w : Workspace) (uri : Text) (site : TypeSite) : Prop :=
  if site.role = .field then MeansType w uri site.scope site.type.text
  else MeansMessage w uri site.scope site.type.text

theorem faultless_resolved_iff {scope : Text} {type : Name} {judge : Symbol → List Finding} :
    Faultless ((resolved uri scope type judge).answer w) ↔
      ∃ t, (resolveType type.text uri (some scope)).answer w = some t ∧ Faultless (judge t) := by
  rw [answer_resolved]
  cases (resolveType type.text uri (some scope)).answer w with
  | none => exact iff_of_false (not_faultless_singleton rfl) (fun ⟨t, ht, _⟩ => nomatch ht)
  | some t => simp

/-- **Nothing is wrong with a reference that means what it must.** -/
theorem faultless_foundAt_iff {site : TypeSite} :
    Faultless (foundAt w uri site) ↔ SiteRule w uri site := by
  obtain ⟨type, scope, role⟩ := site
  cases role with
  | field =>
    rw [foundAt_field, SiteRule, if_pos rfl, MeansType]
    split
    · next scalar => exact iff_of_true faultless_nil (Or.inl (List.contains_iff_mem.1 scalar))
    · next declared =>
      rw [faultless_resolved_iff, or_iff_right (by simpa using declared)]
      exact exists_congr fun t => and_iff_left faultless_nil
  | extendTarget =>
    rw [foundAt_extendTarget, faultless_resolved_iff, SiteRule, if_neg (by simp)]
    exact exists_congr fun t => and_congr_right fun _ => (faultless_findIf rfl).trans (by simp)
  | rpc name =>
    rw [SiteRule, if_neg (by simp), foundAt_rpc]
    split
    · next scalar =>
      refine iff_of_false (not_faultless_singleton rfl) fun ⟨t, ht, _⟩ => ?_
      rw [answer_resolveType_scalar (List.contains_iff_mem.1 scalar)] at ht
      cases ht
    · rw [faultless_resolved_iff]
      exact exists_congr fun t => and_congr_right fun _ => (faultless_findIf rfl).trans (by simp)

theorem faultless_typeReferences_iff (parsed : f.Parsed) :
    Faultless ((typeReferences uri f).answer w) ↔ ∀ site ∈ f.typeSites, SiteRule w uri site := by
  have same : Faultless ((typeReferences uri f).answer w) ↔
      Faultless (f.typeSites.flatMap (foundAt w uri)) :=
    forall_congr' fun _ => by rw [(perm_typeReferences parsed w uri).mem_iff]
  simp only [same, faultless_flatMap, faultless_foundAt_iff]

/-- The references of a file are those in messages and extend blocks and those in services. -/
theorem mem_typeSites {site : TypeSite} : site ∈ f.typeSites ↔
    site ∈ f.messageSites ++ f.extendSites ∨ site ∈ f.serviceSites := by
  simp only [SchemaFile.typeSites, List.mem_append]
  exact or_right_comm

/-- The references in messages and extend blocks are those of the members at any depth. -/
theorem mem_memberSites {site : TypeSite} : site ∈ f.messageSites ++ f.extendSites ↔
    ∃ scope m, f.Reaches [.message, .extend] MemberKind.all scope m ∧
      site ∈ TypeSite.entering scope m := by
  have leading : ∀ c : Member, c.inner ≠ [] → c.kind ∈ TypeSite.walk.order := by
    intro c inner
    cases c <;> simp_all [Member.inner, Member.kind, TypeSite.walk]
  have referring : ∀ scope (m : Member), site ∈ TypeSite.entering scope m →
      m.kind ∈ TypeSite.walk.order := by
    intro scope m entering
    cases m <;> simp_all [TypeSite.entering, Member.kind, TypeSite.walk]
  rw [List.mem_append, SchemaFile.messageSites, SchemaFile.extendSites, Walk.mem_file_iff,
    Walk.mem_file_iff]
  constructor
  · rintro (⟨scope, m, reached, entering | leaving⟩ | ⟨scope, m, reached, entering | leaving⟩)
    · exact ⟨scope, m, reached.mono (by simp) fun k _ => k.mem_all, entering⟩
    · cases leaving
    · exact ⟨scope, m, reached.mono (by simp) fun k _ => k.mem_all, entering⟩
    · cases leaving
  · rintro ⟨scope, m, reached, entering⟩
    have narrow : f.Reaches [.message, .extend] TypeSite.walk.order scope m :=
      reached.narrow id (fun _ => referring scope m entering) (fun _ _ top => top)
        fun c inner _ => leading c inner
    rcases SchemaFile.reaches_cons_iff.1 narrow with fromMessage | fromExtend
    · exact Or.inl ⟨scope, m, fromMessage, Or.inl entering⟩
    · exact Or.inr ⟨scope, m, fromExtend, Or.inl entering⟩

theorem mem_serviceSites {site : TypeSite} : site ∈ f.serviceSites ↔
    ∃ service ∈ f.services, ∃ rpc ∈ service.rpcs, site ∈ TypeSite.ofRpc f.packageName rpc := by
  simp only [SchemaFile.serviceSites, List.mem_flatMap]

/-- **A check finds an error in a loaded file exactly where a rule is broken.** -/
theorem faultless_findings_iff {r : FileRecord} (loaded : w.file? uri = some r)
    (parsed : r.tree.Parsed) : Faultless (findings w uri) ↔ FileRules w uri r.tree := by
  have noFaults : Faultless (r.tree.faults.map fun fault =>
      (Problem.malformed fault.cause).at fault.span) ↔ r.tree.faults = [] := by
    cases r.tree.faults with
    | nil => exact iff_of_true faultless_nil rfl
    | cons fault rest =>
      exact iff_of_false (fun all => nomatch all _ List.mem_cons_self) (fun h => nomatch h)
  rw [findings, loaded]
  dsimp only
  rw [declarations, answer_bind (looks_imports uri r.tree) fun _ => .pure _, answer_pure,
    faultless_append, faultless_append, faultless_append, faultless_append, noFaults,
    faultless_level_iff, faultless_imports_iff, faultless_bodies_iff,
    faultless_typeReferences_iff parsed]
  constructor
  · rintro ⟨⟨⟨⟨noFaults, level⟩, imports⟩, bodies, enums⟩, sites⟩
    have inside : ∀ scope m, r.tree.Reaches [.message, .extend] MemberKind.all scope m →
        ∀ site ∈ TypeSite.entering scope m, SiteRule w uri site :=
      fun scope m reached site hsite => sites site
        (mem_typeSites.2 (Or.inl (mem_memberSites.2 ⟨scope, m, reached, hsite⟩)))
    have served : ∀ service ∈ r.tree.services, ∀ rpc ∈ service.rpcs,
        ∀ site ∈ TypeSite.ofRpc r.tree.packageName rpc, SiteRule w uri site :=
      fun service hservice rpc hrpc site hsite => sites site
        (mem_typeSites.2 (Or.inr (mem_serviceSites.2 ⟨service, hservice, rpc, hrpc, hsite⟩)))
    refine ⟨noFaults, level, imports, bodies, enums, ?_, ?_, ?_, ?_⟩
    · intro scope g reached
      exact inside scope _ reached _ List.mem_cons_self
    · intro scope g reached
      exact inside scope _ reached _ List.mem_cons_self
    · intro scope h body reached
      exact inside scope _ reached _ List.mem_cons_self
    · intro service hservice rpc hrpc
      have each := served service hservice rpc hrpc
      exact ⟨each _ List.mem_cons_self, each _ (List.mem_cons_of_mem _ List.mem_cons_self)⟩
  · intro rules
    refine ⟨⟨⟨⟨rules.noFaults, rules.level⟩, rules.imports⟩, rules.bodies, rules.enums⟩, ?_⟩
    intro site hsite
    rcases mem_typeSites.1 hsite with hsite | hsite
    · obtain ⟨scope, m, reached, entering⟩ := mem_memberSites.1 hsite
      cases m with
      | field g =>
        obtain rfl := List.mem_singleton.1 entering
        exact rules.fields scope g reached
      | map g =>
        obtain rfl := List.mem_singleton.1 entering
        exact rules.maps scope g reached
      | extend h body =>
        obtain rfl := List.mem_singleton.1 entering
        exact rules.targets scope h body reached
      | _ => cases entering
    · obtain ⟨service, hservice, rpc, hrpc, hsite⟩ := mem_serviceSites.1 hsite
      have each := rules.rpcs service hservice rpc hrpc
      rcases List.mem_cons.1 hsite with rfl | hsite
      · exact each.1
      · obtain rfl := List.mem_singleton.1 hsite
        exact each.2

/-! ### The numbers that findings name -/

variable {x : Finding} {n : Int}

theorem number_of_mem_level (hx : x ∈ level f) : x.problem.number? = none := by
  unfold level at hx
  split at hx
  · obtain rfl := List.mem_singleton.1 hx
    rfl
  · cases hx
  · obtain ⟨-, rfl⟩ := mem_findIf.1 hx
    rfl

theorem number_of_mem_imports (hx : x ∈ (imports uri f).answer w) : x.problem.number? = none := by
  rw [answer_imports] at hx
  obtain ⟨i, h, hx⟩ := mem_withEarlier.1 hx
  rw [importing, answer_bind (.resolveImport uri _) fun _ => .pure _, answer_pure] at hx
  rcases List.mem_append.1 hx with hx | hx
  · obtain ⟨-, rfl⟩ := mem_findIf.1 hx
    rfl
  · obtain ⟨-, rfl⟩ := mem_findIf.1 hx
    rfl

/-- The findings in bodies name only numbers of the file. -/
theorem number_of_mem_bodies (hx : x ∈ bodies f) (named : x.problem.number? = some n) :
    n ∈ f.numbers := by
  obtain ⟨scope, m, reached, entering | leaving⟩ := Walk.mem_file_iff.1 hx
  · cases m with
    | message h body =>
      obtain ⟨s, hs, rfl⟩ := number_of_mem_messageBody entering named
      exact reached.slot_mem_numbers hs
    | group h body =>
      obtain ⟨s, hs, rfl⟩ := number_of_mem_messageBody entering named
      exact reached.slot_mem_numbers hs
    | enum e =>
      obtain ⟨v, hv, rfl⟩ := number_of_mem_enum entering named
      exact reached.mem_numbers (List.mem_map.2 ⟨v, hv, rfl⟩)
    | _ => cases entering
  · cases leaving

theorem number_of_mem_resolved {scope : Text} {type : Name} {judge : Symbol → List Finding}
    (other : ∀ t, ∀ x ∈ judge t, x.problem.number? = none)
    (hx : x ∈ (resolved uri scope type judge).answer w) : x.problem.number? = none := by
  rw [answer_resolved] at hx
  split at hx
  · obtain rfl := List.mem_singleton.1 hx
    rfl
  · exact other _ x hx

/-- The findings at a reference name no number. -/
theorem number_of_mem_foundAt {site : TypeSite} (hx : x ∈ foundAt w uri site) :
    x.problem.number? = none := by
  have noMessage : ∀ {condition p span}, p.number? = none →
      ∀ x ∈ findIf condition p span, x.problem.number? = none := by
    intro condition p span none x hx
    obtain ⟨-, rfl⟩ := mem_findIf.1 hx
    exact none
  obtain ⟨type, scope, role⟩ := site
  cases role with
  | field =>
    rw [foundAt_field] at hx
    split at hx
    · cases hx
    · exact number_of_mem_resolved (fun _ _ none => absurd none List.not_mem_nil) hx
  | extendTarget => exact number_of_mem_resolved (fun _ => noMessage rfl) hx
  | rpc name =>
    rw [foundAt_rpc] at hx
    split at hx
    · obtain rfl := List.mem_singleton.1 hx
      rfl
    · exact number_of_mem_resolved (fun _ => noMessage rfl) hx

theorem number_of_mem_typeReferences (parsed : f.Parsed)
    (hx : x ∈ (typeReferences uri f).answer w) : x.problem.number? = none := by
  rw [(perm_typeReferences parsed w uri).mem_iff] at hx
  obtain ⟨site, -, hx⟩ := List.mem_flatMap.1 hx
  exact number_of_mem_foundAt hx

/-- **The findings in a loaded file name only numbers of the file.** -/
theorem number_of_mem_findings {r : FileRecord} (loaded : w.file? uri = some r)
    (parsed : r.tree.Parsed) (hx : x ∈ findings w uri) (named : x.problem.number? = some n) :
    n ∈ r.tree.numbers := by
  rw [findings, loaded] at hx
  dsimp only at hx
  rw [declarations, answer_bind (looks_imports uri r.tree) fun _ => .pure _, answer_pure,
    List.mem_append, List.mem_append, List.mem_append, List.mem_append] at hx
  rcases hx with (((fault | level) | import') | body) | site
  · obtain ⟨fault, -, rfl⟩ := List.mem_map.1 fault
    cases named
  · rw [number_of_mem_level level] at named
    cases named
  · rw [number_of_mem_imports import'] at named
    cases named
  · exact number_of_mem_bodies body named
  · rw [number_of_mem_typeReferences parsed site] at named
    cases named

end Check

/-- A file whose check gives an answer without errors is loaded and follows the rules. -/
theorem Session.Reachable.exists_fileRules {s : Session} (h : s.Reachable) {uri : Text}
    {issues : List Issue} (checked : ((Check.file uri).run s).1 = some issues)
    (valid : Issue.errors issues = []) :
    ∃ r, s.workspace.file? uri = some r ∧ Check.FileRules s.workspace uri r.tree := by
  rw [h.answer (.check uri), Check.answer_file] at checked
  have faultless := (Check.errors_eq_nil_iff checked).1 valid
  cases loaded : s.workspace.file? uri with
  | none =>
    rw [Check.findings, loaded] at faultless
    cases faultless _ List.mem_cons_self
  | some r =>
    have parsed := h.parsed r (List.mem_of_find?_eq_some loaded)
    exact ⟨r, rfl, (Check.faultless_findings_iff loaded parsed).1 faultless⟩

/-- **Checking decides the rules.**  In every reachable session, for every URI such that
the numbers in the file loaded under it have at most `maxDecimalDigits` digits, checking
gives an answer, and this has no error if and only if there is a file loaded under the URI
and it follows the rules. -/
theorem check_decides_file_rules (s : Session) (h : s.Reachable) (uri : Text)
    (short : ∀ r, s.workspace.file? uri = some r →
      ∀ n ∈ r.tree.numbers, n.natAbs < Nat.pow 10 maxDecimalDigits) :
    ∃ issues, ((Check.file uri).run s).1 = some issues ∧
      (Issue.errors issues = [] ↔
        ∃ r, s.workspace.file? uri = some r ∧ Check.FileRules s.workspace uri r.tree) := by
  rw [h.answer (.check uri), Check.answer_file]
  cases loaded : s.workspace.file? uri with
  | none =>
    refine ⟨[⟨.error, _, none⟩], by rw [Check.findings, loaded]; rfl, ?_⟩
    exact iff_of_false (fun none => nomatch none) (fun ⟨r, hr, _⟩ => nomatch hr)
  | some r =>
    have parsed := h.parsed r (List.mem_of_find?_eq_some loaded)
    have named : ∀ x ∈ Check.findings s.workspace uri, ∀ n, x.problem.number? = some n →
        n.natAbs < Nat.pow 10 maxDecimalDigits := fun x hx n named =>
      short r loaded n (Check.number_of_mem_findings loaded parsed hx named)
    obtain ⟨issues, worded⟩ := Check.issues?_isSome uri named
    refine ⟨issues, worded, ?_⟩
    rw [Check.errors_eq_nil_iff worded, Check.faultless_findings_iff loaded parsed]
    exact ⟨fun rules => ⟨r, rfl, rules⟩, fun ⟨r', same, rules⟩ => Option.some.inj same ▸ rules⟩

/-- A session with one file that has nested bodies, a oneof, a group and an alias. -/
def nestedBodies : Session :=
  Session.empty.update (.ofText "u" <|
    "syntax = 'proto2' ; message M \x7b optional int32 a = 1 ; oneof o \x7b string b = 2 ; " ++
    "group G = 4 \x7b optional bool a = 1 ; \x7d \x7d reserved 5 to 9 , 'c' ; " ++
    "enum E \x7b option allow_alias = true ; X = 1 ; Y = 1 ; \x7d \x7d")

/-- It has no errors, so it follows the rules. -/
theorem nestedBodies_follows_rules : nestedBodies.Reachable ∧
    (∀ r, nestedBodies.workspace.file? "u" = some r →
      ∀ n ∈ r.tree.numbers, n.natAbs < Nat.pow 10 maxDecimalDigits) ∧
    ∃ r, nestedBodies.workspace.file? "u" = some r ∧
      Check.FileRules nestedBodies.workspace "u" r.tree := by
  have reachable : nestedBodies.Reachable := Session.Reachable.new.update "u" "u" _ none
  have short : ∀ r ∈ nestedBodies.workspace.file? "u", ∀ n ∈ r.tree.numbers,
      n.natAbs < Nat.pow 10 maxDecimalDigits := by decide +kernel
  have checked : ((Check.file "u").run nestedBodies).1 = some [] := by decide +kernel
  obtain ⟨issues, run, decides⟩ := check_decides_file_rules nestedBodies reachable "u" short
  obtain rfl := Option.some.inj (checked.symm.trans run)
  exact ⟨reachable, short, decides.1 rfl⟩

end ProtoAtlas
