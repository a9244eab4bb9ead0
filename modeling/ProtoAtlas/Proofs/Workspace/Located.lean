/-
# Locations point at what they name

The names of declarations and the types they refer to are written on stretches of tokens,
so the text at the span of a name is the name, and the text at the span of a type has the
tokens of the type (`SchemaFile.Writes.slice_word`, `SchemaFile.Writes.tokens_path`).
Symbols and references carry these spans along: each comes from a node of the file that
has its name or its type written in it (`SchemaFile.Writes`).

The one name that is not written is that of the field which a group declares: the text at
its location is the name of the group, which is the name of the field but for its case.
-/

import ProtoAtlas.Proofs.Grammar.Laminar
import ProtoAtlas.Proofs.Workspace.Replaced

namespace ProtoAtlas

namespace SchemaFile

variable {f : SchemaFile} {uri source : Text}

/-! ### The text of a name -/

/-- **The text at the span of a name is the name.** -/
theorem Writes.slice_word {name : Name} (h : (parse uri source).Writes (.word, name)) :
    source.slice name.span = name.text := by
  obtain ⟨v, sub, covers, t, rfl, -, text⟩ := h.exists_fits
  rw [covers.unique (Token.covers_singleton t), text]
  exact TokenStream.slice_token (sub.subset (List.mem_singleton_self t))

/-- **The text at the span of a type has the tokens of the type**, and no others. -/
theorem Writes.tokens_path {name : Name} (h : (parse uri source).Writes (.path, name)) :
    (∀ t ∈ (TokenStream.ofText (source.slice name.span)).tokens,
      t.kind = .identifier ∨ t.kind = .dot) ∧
    (TokenStream.ofText (source.slice name.span)).tokens.flatMap Token.text = name.text := by
  obtain ⟨v, sub, covers, path, text⟩ := h.exists_fits
  have lexemes := TokenStream.lexemes_slice sub covers path.kinds path.last
  constructor
  · intro t ht
    have mem : t.lexeme ∈ v.map Token.lexeme := lexemes ▸ List.mem_map_of_mem ht
    obtain ⟨t', ht', same⟩ := List.mem_map.1 mem
    have kind : t'.kind = t.kind := congrArg Lexeme.kind same
    exact kind ▸ path.kinds t' ht'
  · have texts : ∀ ts : List Token, ts.flatMap Token.text =
        (ts.map Token.lexeme).flatMap Lexeme.text := fun ts => by
      rw [List.flatMap_map]
      rfl
    rw [texts, lexemes, ← texts, text]

/-! ### References -/

/-- **Every type that a file refers to is written in it.** -/
theorem writes_of_mem_typeSites {site : TypeSite} (h : site ∈ f.typeSites) :
    f.Writes (.path, site.type) := by
  have walked : ∀ {tops}, site ∈ TypeSite.walk.file tops f → f.Writes (.path, site.type) := by
    intro tops hs
    obtain ⟨scope, m, reached, entering | leaving⟩ := Walk.mem_file_iff.1 hs
    · refine ⟨_, reached.hasNode, ?_⟩
      cases m with
      | field g =>
        rw [List.mem_singleton.1 entering]
        exact List.mem_cons_self
      | map g =>
        rw [List.mem_singleton.1 entering]
        simp [Node.spellings, Member.spellings]
      | extend head body =>
        rw [List.mem_singleton.1 entering]
        exact List.mem_cons_self
      | _ => cases entering
    · cases leaving
  rw [typeSites, List.mem_append, List.mem_append] at h
  rcases h with (h | h) | h
  · exact walked h
  · obtain ⟨s, hs, h⟩ := List.mem_flatMap.1 h
    obtain ⟨r, hr, h⟩ := List.mem_flatMap.1 h
    refine ⟨_, (hasNode_service hs).rpc hr, ?_⟩
    simp only [TypeSite.ofRpc, List.mem_cons, List.not_mem_nil, or_false] at h
    rcases h with rfl | rfl <;> simp [Node.spellings]
  · exact walked h

end SchemaFile

theorem Session.symbolsIn_update (s : Session) (uri : Text) (tree : SchemaFile)
    (logical : Option Text) :
    (s.update (FileRecord.ofTree uri tree logical)).workspace.symbolsIn uri = tree.symbols uri := by
  have found : (s.update (FileRecord.ofTree uri tree logical)).workspace.file? uri =
      some (FileRecord.ofTree uri tree logical) :=
    Workspace.find?_putFile s.workspace.files (FileRecord.ofTree uri tree logical)
  rw [Workspace.symbolsIn, found]
  rfl

/-- **Locations point at what they name.**  When a file has been loaded from a text, its
symbols are those of the text.  The text at the location of a symbol is the name of the
symbol; if the symbol is the field of a group, it is so up to case.  The text at the place
of a type reference consists of identifiers and dots, blanks and comments apart, which make
up the type. -/
theorem locations_point_at_source (s : Session) (uri source : Text) (logical : Option Text) :
    (s.update (FileRecord.ofTree uri (SchemaFile.parse uri source) logical)).workspace.symbolsIn
      uri = (SchemaFile.parse uri source).symbols uri ∧
    (∀ t ∈ (SchemaFile.parse uri source).symbols uri, t.location.uri = uri ∧
      (source.slice t.location.span = t.name ∨
        (SchemaFile.parse uri source).IsGroupField uri t ∧
          (source.slice t.location.span).lower = t.name)) ∧
    ∀ site ∈ (SchemaFile.parse uri source).typeSites,
      (∀ token ∈ (TokenStream.ofText (source.slice site.type.span)).tokens,
        token.kind = .identifier ∨ token.kind = .dot) ∧
      (TokenStream.ofText (source.slice site.type.span)).tokens.flatMap Token.text =
        site.type.text := by
  refine ⟨s.symbolsIn_update uri _ logical, fun t ht => ?_, fun site hsite =>
    (SchemaFile.writes_of_mem_typeSites hsite).tokens_path⟩
  rcases SchemaFile.names_or_isGroupField ht with ⟨kind, scope, name, info, writes, rfl⟩ | group
  · exact ⟨rfl, Or.inl writes.slice_word⟩
  · obtain ⟨scope, head, body, has, rfl⟩ := group
    have writes : (SchemaFile.parse uri source).Writes (.word, head.name) :=
      ⟨_, has, List.mem_cons_self⟩
    refine ⟨rfl, Or.inr ⟨⟨scope, head, body, has, rfl⟩, ?_⟩⟩
    exact congrArg Text.lower writes.slice_word

namespace Located

/-- A group behind a comment of two lines, with a type that is written apart. -/
def source : Text :=
  "message A \x7b /* 𝒜\n */ optional group Bc = 1 \x7b a . /* */ b d = 2; \x7d \x7d"

theorem group_field_and_spaced_type :
    (∃ t ∈ (Session.empty.update (FileRecord.ofTree "a" (SchemaFile.parse "a" source)
        none)).workspace.symbolsIn "a",
      t.name = "bc" ∧ source.slice t.location.span = "Bc" ∧
      (SchemaFile.parse "a" source).IsGroupField "a" t ∧
      (source.slice t.location.span).lower = t.name) ∧
    ∃ site ∈ (SchemaFile.parse "a" source).typeSites,
      source.slice site.type.span = "a . /* */ b" ∧ site.type.text = "a.b" ∧
      (TokenStream.ofText (source.slice site.type.span)).tokens.flatMap Token.text =
        site.type.text := by
  have symbols : ((SchemaFile.parse "a" source).symbols "a").map
      (fun t => (t.name, source.slice t.location.span)) =
      [(("A" : Text), ("A" : Text)), ("Bc", "Bc"), ("d", "d"), ("bc", "Bc")] := by decide +kernel
  have sites : (SchemaFile.parse "a" source).typeSites.map
      (fun site => (site.type.text, source.slice site.type.span)) =
      [(("a.b" : Text), ("a . /* */ b" : Text))] := by decide +kernel
  obtain ⟨same, located, spelled⟩ := locations_point_at_source Session.empty "a" source none
  constructor
  · have mem : (("bc" : Text), ("Bc" : Text)) ∈ ((SchemaFile.parse "a" source).symbols "a").map
        (fun t => (t.name, source.slice t.location.span)) := by
      rw [symbols]
      exact .tail _ (.tail _ (.tail _ (.head _)))
    obtain ⟨t, ht, both⟩ := List.mem_map.1 mem
    obtain ⟨name, slice⟩ := Prod.mk.inj both
    refine ⟨t, same ▸ ht, name, slice, ?_⟩
    rcases (located t ht).2 with written | group
    · rw [slice, name] at written
      exact absurd written (by decide)
    · exact group
  · obtain ⟨site, hsites, both⟩ := List.map_eq_singleton_iff.1 sites
    obtain ⟨text, slice⟩ := Prod.mk.inj both
    have hsite : site ∈ (SchemaFile.parse "a" source).typeSites := by
      rw [hsites]
      exact List.mem_singleton_self site
    exact ⟨site, hsite, slice, text, (spelled site hsite).2⟩

end Located
end ProtoAtlas
