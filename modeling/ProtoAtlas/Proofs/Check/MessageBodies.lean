/-
# Which declared messages a check looks into

Every message and every group at any depth of a file, in its messages and in its extend
blocks, is a message symbol, and there are no others (`mem_messageSymbols_iff`).  A check
looks into the bodies of those that are reached without passing an extend block
(`valid_bodies_outside_extends_are_numbered`).  The group of an extend block is declared
like the rest, but its body is not looked into (`extendedGroup_is_not_numbered`).
-/

import ProtoAtlas.Proofs.Check.FileRules
import ProtoAtlas.Proofs.Workspace.TypeRule

namespace ProtoAtlas

/-- The message symbol of a member that stands in a scope. -/
def Member.messageSymbol? (uri scope : Text) : Member → Option Symbol
  | .message h _ => some (.declare uri .message scope h.name.text h.name.span h.info)
  | .group h _ => some (.declare uri .message scope h.name.text h.name.span h.info)
  | _ => none

/-- A member with a message symbol is a message or a group. -/
theorem Member.kind_of_messageSymbol? {uri scope : Text} {m : Member} {t : Symbol}
    (h : m.messageSymbol? uri scope = some t) : m.kind = .message ∨ m.kind = .group := by
  cases m with
  | message => exact Or.inl rfl
  | group => exact Or.inr rfl
  | _ => cases h

/-- The message symbols of one member. -/
theorem Symbol.mem_own_iff {uri scope : Text} {m : Member} {t : Symbol} :
    ((t ∈ entering uri scope m ∨ t ∈ leaving uri scope m) ∧ t.kind = .message) ↔
      m.messageSymbol? uri scope = some t := by
  have enumSymbols : ∀ e : Enum, ∀ t ∈ ofEnum uri scope e, t.kind ≠ .message := by
    intro e t ht
    rcases List.mem_cons.1 ht with rfl | ht
    · simp [declare]
    · obtain ⟨v, -, rfl⟩ := List.mem_map.1 ht
      simp [declare]
  have alone : ∀ {kind : SymbolKind} {name : Text} {span : Span} {info : NodeInfo},
      kind ≠ .message → t ∈ [declare uri kind scope name span info] → t.kind ≠ .message := by
    intro kind name span info other ht
    rw [List.mem_singleton.1 ht]
    exact other
  constructor
  · rintro ⟨own, kind⟩
    cases m with
    | message h body =>
      obtain rfl := List.mem_singleton.1 (own.resolve_right (by simp [leaving]))
      rfl
    | group h body =>
      obtain rfl := List.mem_singleton.1 (own.resolve_right fun field => alone (by simp) field kind)
      rfl
    | enum e => exact absurd kind (enumSymbols e t (own.resolve_right (by simp [leaving])))
    | field f => exact absurd kind (alone (by simp) (own.resolve_right (by simp [leaving])))
    | map f => exact absurd kind (alone (by simp) (own.resolve_right (by simp [leaving])))
    | oneof h body => exact absurd kind (alone (by simp) (own.resolve_right (by simp [leaving])))
    | _ => rcases own with none | none <;> cases none
  · intro own
    cases m with
    | message h body =>
      obtain rfl := Option.some.inj own
      exact ⟨Or.inl List.mem_cons_self, rfl⟩
    | group h body =>
      obtain rfl := Option.some.inj own
      exact ⟨Or.inl List.mem_cons_self, rfl⟩
    | _ => cases own

namespace SchemaFile

variable {f : SchemaFile} {uri : Text} {t : Symbol}

/-- **The message symbols of a file** are those of its messages and groups at any depth,
in messages and in extend blocks. -/
theorem mem_messageSymbols_iff : (t ∈ f.symbols uri ∧ t.kind = .message) ↔
    ∃ scope m, f.Reaches [.message, .extend] MemberKind.all scope m ∧
      m.messageSymbol? uri scope = some t := by
  have leading : ∀ c : Member, c.inner ≠ [] → c.kind ∈ (Symbol.walk uri).order := by
    intro c inner
    cases c <;> simp_all [Member.inner, Member.kind, Symbol.walk]
  constructor
  · rintro ⟨ht, kind⟩
    rcases List.mem_append.1 ht with ht | ht
    · rcases List.mem_append.1 ht with ht | ht
      · obtain ⟨scope, m, reached, own⟩ := Walk.mem_file_iff.1 ht
        have message := Symbol.mem_own_iff.1 ⟨own, kind⟩
        have deep : f.Reaches [.message, .enum] MemberKind.all scope m :=
          reached.mono (fun k hk => hk) fun k _ => k.mem_all
        refine ⟨scope, m, deep.narrow ?_ id (fun c inner => ?_) fun c _ h => h, message⟩
        · rcases Member.kind_of_messageSymbol? message with h | h <;> simp [h]
        · simpa [c.kind_ne_enum inner] using Or.inl
      · obtain ⟨service, -, ht⟩ := List.mem_flatMap.1 ht
        rcases List.mem_cons.1 ht with rfl | ht
        · cases kind
        · obtain ⟨rpc, -, rfl⟩ := List.mem_map.1 ht
          cases kind
    · obtain ⟨scope, m, reached, own⟩ := Walk.mem_file_iff.1 ht
      exact ⟨scope, m, reached.mono (by simp) fun k _ => k.mem_all,
        Symbol.mem_own_iff.1 ⟨own, kind⟩⟩
  · rintro ⟨scope, m, reached, own⟩
    obtain ⟨mem, kind⟩ := Symbol.mem_own_iff.2 own
    have narrow : f.Reaches [.message, .extend] (Symbol.walk uri).order scope m := by
      refine reached.narrow id (fun _ => ?_) (fun _ _ h => h) fun c inner _ => leading c inner
      rcases Member.kind_of_messageSymbol? own with h | h <;> simp [h, Symbol.walk]
    refine ⟨?_, kind⟩
    rcases reaches_cons_iff.1 narrow with fromMessage | fromExtend
    · refine List.mem_append_left _ (List.mem_append_left _ ?_)
      exact Walk.mem_file_iff.2 ⟨scope, m, fromMessage.mono (by simp) fun k hk => hk, mem⟩
    · exact List.mem_append_right _ (Walk.mem_file_iff.2 ⟨scope, m, fromExtend, mem⟩)

end SchemaFile

/-- **The bodies outside extend blocks of a valid file are well numbered.**  In every
reachable session, if a check gives an answer without errors, then a file is loaded under
the URI; its message symbols are those of its messages and groups at any depth, in
messages and in extend blocks; and the field numbers in the body of each of these that is
reached without passing an extend block are distinct and in range. -/
theorem valid_bodies_outside_extends_are_numbered (s : Session) (h : s.Reachable) (uri : Text)
    (issues : List Issue) (checked : ((Check.file uri).run s).1 = some issues)
    (valid : Issue.errors issues = []) :
    ∃ r, s.workspace.file? uri = some r ∧
      (∀ t, (t ∈ r.symbols ∧ t.kind = .message) ↔
        ∃ scope m, r.tree.Reaches [.message, .extend] MemberKind.all scope m ∧
          m.messageSymbol? r.uri scope = some t) ∧
      ∀ scope m t, r.tree.Reaches [.message] [.message, .group, .oneof] scope m →
        m.messageSymbol? r.uri scope = some t →
          ((Check.Slot.ofBody m.inner).map (·.number)).Nodup ∧
            ∀ n ∈ (Check.Slot.ofBody m.inner).map (·.number), 1 ≤ n ∧ n ≤ 536870911 := by
  obtain ⟨r, loaded, rules⟩ := h.exists_fileRules checked valid
  refine ⟨r, loaded, fun t => ?_, fun scope m t reached message => ?_⟩
  · rw [r.symbols_eq]
    exact SchemaFile.mem_messageSymbols_iff
  · have body := rules.bodies scope m reached (Member.kind_of_messageSymbol? message)
    refine ⟨body.numbers, fun n hn => ?_⟩
    obtain ⟨slot, hslot, rfl⟩ := List.mem_map.1 hn
    exact (body.slots slot hslot).inRange

/-- The bodies of a file with a group in a oneof of a message. -/
theorem nestedBodies_are_numbered : nestedBodies.Reachable ∧
    ((Check.file "u").run nestedBodies).1 = some [] ∧ Issue.errors [] = [] ∧
    ∃ r, nestedBodies.workspace.file? "u" = some r ∧
      ∀ scope m t, r.tree.Reaches [.message] [.message, .group, .oneof] scope m →
        m.messageSymbol? r.uri scope = some t →
          ((Check.Slot.ofBody m.inner).map (·.number)).Nodup ∧
            ∀ n ∈ (Check.Slot.ofBody m.inner).map (·.number), 1 ≤ n ∧ n ≤ 536870911 := by
  have reachable : nestedBodies.Reachable := Session.Reachable.new.update "u" "u" _ none
  have checked : ((Check.file "u").run nestedBodies).1 = some [] := by decide +kernel
  obtain ⟨r, loaded, -, numbered⟩ :=
    valid_bodies_outside_extends_are_numbered nestedBodies reachable "u" [] checked rfl
  exact ⟨reachable, checked, rfl, r, loaded, numbered⟩

/-- A session with a file in which a group of an extend block has a number twice and a
number that is out of range. -/
def extendedGroup : Session :=
  Session.empty.update (.ofText "u" <|
    "syntax = 'proto2' ; message M \x7b extensions 5 to 10 ; \x7d extend M \x7b " ++
    "optional group G = 5 \x7b optional int32 a = 1 ; optional int32 b = 1 ; " ++
    "optional int32 c = 0 ; \x7d \x7d")

theorem reachable_extendedGroup : extendedGroup.Reachable :=
  Session.Reachable.new.update "u" "u" _ none

/-- The extend block of the file extends a message. -/
theorem extendedGroup_target : Check.MeansMessage extendedGroup.workspace "u" [] "M" := by
  have ⟨types, message⟩ :
      (∀ t ∈ extendedGroup.workspace.allSymbols, t.isType = true → t.kind = .message) ∧
        ∃ t ∈ extendedGroup.workspace.allSymbols, t.isType = true ∧ t.fullName = ("M" : Text) := by
    decide +kernel
  have chosen := reachable_extendedGroup.indexed.preferred_typeInScope? [] "M"
  rw [Check.MeansMessage, Workspace.answer_resolveType _ (by decide) (by decide) (by decide)]
  rw [Option.getD_some]
  generalize extendedGroup.workspace.index.typeInScope? [] "M" = found at chosen
  cases chosen with
  | @here _ _ t has => exact ⟨t, rfl, types t has.1.1 has.1.2⟩
  | later absent =>
    obtain ⟨t, ht, type, same⟩ := message
    exact absurd ⟨⟨ht, type⟩, same⟩ (absent t)

theorem extendedGroup_faultless :
    Check.Faultless (Check.findings extendedGroup.workspace "u") := by
  have loaded : (extendedGroup.workspace.file? "u").isSome = true := by decide +kernel
  obtain ⟨r, loaded⟩ := Option.isSome_iff_exists.1 loaded
  have computed : ∀ r ∈ extendedGroup.workspace.file? "u",
      (∀ x ∈ (Check.declarations "u" r.tree).answer extendedGroup.workspace, x.isError = false) ∧
      ∀ site ∈ r.tree.typeSites,
        site.role = .field ∧ site.type.text ∈ scalarTypes ∨
          site.role = .extendTarget ∧ site.scope = [] ∧ site.type.text = ("M" : Text) := by
    decide +kernel
  obtain ⟨declared, sites⟩ := computed r loaded
  rw [Check.findings, loaded]
  have parsed := reachable_extendedGroup.parsed r (List.mem_of_find?_eq_some loaded)
  refine Check.faultless_append.2 ⟨declared, (Check.faultless_typeReferences_iff parsed).2 ?_⟩
  intro site hsite
  rcases sites site hsite with ⟨field, scalar⟩ | ⟨target, scope, type⟩
  · rw [Check.SiteRule, if_pos field]
    exact Or.inl scalar
  · rw [Check.SiteRule, if_neg (by simp [target]), scope, type]
    exact extendedGroup_target

/-- **A group of an extend block is not looked into.**  The check of this file finds no
error, though the body of one of its message symbols has a number twice and a number that
is out of range. -/
theorem extendedGroup_is_not_numbered : extendedGroup.Reachable ∧
    ∃ issues, ((Check.file "u").run extendedGroup).1 = some issues ∧ Issue.errors issues = [] ∧
      ∃ r, extendedGroup.workspace.file? "u" = some r ∧
        ∃ t ∈ r.symbols, t.kind = .message ∧
          ∃ scope m, r.tree.Reaches [.extend] [.group] scope m ∧
            m.messageSymbol? r.uri scope = some t ∧
            ¬ ((Check.Slot.ofBody m.inner).map (·.number)).Nodup ∧
            ∃ n ∈ (Check.Slot.ofBody m.inner).map (·.number), n < 1 := by
  have loaded : (extendedGroup.workspace.file? "u").isSome = true := by decide +kernel
  obtain ⟨r, loaded⟩ := Option.isSome_iff_exists.1 loaded
  have computed : ∀ r ∈ extendedGroup.workspace.file? "u",
      (∀ n ∈ r.tree.numbers, n.natAbs < Nat.pow 10 maxDecimalDigits) ∧
      ∃ p ∈ r.tree.reached [.extend] [.group], (p.2.messageSymbol? r.uri p.1).isSome = true ∧
        ¬ ((Check.Slot.ofBody p.2.inner).map (·.number)).Nodup ∧
        ∃ n ∈ (Check.Slot.ofBody p.2.inner).map (·.number), n < 1 := by decide +kernel
  obtain ⟨short, ⟨scope, m⟩, reached, isMessage, twice, small⟩ := computed r loaded
  have named : ∀ x ∈ Check.findings extendedGroup.workspace "u", ∀ n, x.problem.number? = some n →
      n.natAbs < Nat.pow 10 maxDecimalDigits := fun x hx n named =>
    short n (Check.number_of_mem_findings loaded
      (reachable_extendedGroup.parsed r (List.mem_of_find?_eq_some loaded)) hx named)
  obtain ⟨issues, worded⟩ := Check.issues?_isSome "u" named
  rw [SchemaFile.mem_reached] at reached
  obtain ⟨t, message⟩ := Option.isSome_iff_exists.1 isMessage
  have deep : r.tree.Reaches [.message, .extend] MemberKind.all scope m :=
    reached.mono (by simp) fun k _ => k.mem_all
  obtain ⟨symbol, kind⟩ := SchemaFile.mem_messageSymbols_iff.2 ⟨scope, m, deep, message⟩
  refine ⟨reachable_extendedGroup, issues, ?_,
    (Check.errors_eq_nil_iff worded).2 extendedGroup_faultless, r, loaded, t,
    r.symbols_eq ▸ symbol, kind, scope, m, reached, message, twice, small⟩
  rw [reachable_extendedGroup.answer (.check "u"), Check.answer_file, worded]

end ProtoAtlas
