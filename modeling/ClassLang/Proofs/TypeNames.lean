import ClassLang.Proofs.LinkageNames
import ClassLang.Proofs.Lookup
import ClassLang.Proofs.Reading
import ClassLang.Proofs.SourceTokens
import ClassLang.Proofs.WellFormed

/-!
# The name of a type is a written type

Messages name types by a text. Read as a type of the language, this text is resolved to the type it came
from, so different types have different names.

* `Ty.written`: how a type is written.
* `Token.munch_type`: the text of a type is cut into the words of the written type. Neither `*` nor a
  bracket goes on with a name or with each other.
* `TypeName.resolve_written`: in the global scope, a type that is written out is resolved to itself, and
  nothing is entered.
* `Registry.typeName_reads_back`: **both steps together**, for the types of a text.
-/

namespace ClassLang

/-- How a type is written. -/
def Ty.written : Ty → TypeName
  | native k => .named k.name .nowhere
  | ofClass name => .named name .nowhere
  | pointer target => .pointer target.written .nowhere
  | array element => .array element.written .nowhere

theorem Native.name_isFree (k : Native) : Token.IsFree k.name := by
  refine ⟨Token.isWord_of_accepts ?_, ?_⟩
  · cases k <;> rfl
  · cases k <;> decide

/-! ## Cutting the text -/

namespace Token

variable {tail : List Char}

/-- What follows goes on with no word. -/
def Leaves (tail : List Char) : Prop := ∀ c ∈ tail.head?, isWordPart c = false

/-- A free word is read as a name. -/
theorem munch_free {n : String} (hn : IsFree n) (htail : Leaves tail) :
    munch (n.toList ++ tail) = (nameWord n :: ·) <$> munch tail := by
  obtain ⟨⟨c, v, hcons, hc, hv⟩, hfree⟩ := hn
  have hrun : (v ++ tail).takeWhile isWordPart = v := by
    rw [List.takeWhile_append_of_pos hv]
    cases tail with
    | nil => exact List.append_nil v
    | cons d tail => rw [List.takeWhile_cons_of_neg (by rw [htail d rfl]; decide), List.append_nil]
  have hlongest := Lexeme.longest_word hc (v ++ tail)
  rw [hrun, ← List.cons_append, ← hcons] at hlongest
  have hnone : spelled? keywords n.toList = none := by
    refine Option.eq_none_iff_forall_not_mem.2 fun k h => ?_
    obtain ⟨hk, htext⟩ := spelled?_eq_some h
    exact hfree k hk (String.toList_inj.1 htext)
  have hmunch := munch_of_kind hlongest rfl
  rwa [hnone, String.ofList_toList] at hmunch

/-- A symbol that is told by one character is read as itself, whatever follows. -/
theorem munch_mark {c : Char} {k : Kind} (h : Lexeme.first? c tail = some ⟨some k, 0⟩)
    (htext : k.text = String.ofList [c]) : munch (c :: tail) = (mark k :: ·) <$> munch tail := by
  rw [mark, htext]
  exact munch_of_first? h

/-- **The text of a type is cut into its words**, if its classes have free names. -/
theorem munch_type {r : Registry} (hr : r.Sound) (hnames : ∀ c n, r.className? c = some n → IsFree n)
    {id : TypeId} {T : Ty} (h : r.meaning? id = some T) (htail : Leaves tail) :
    munch (T.text.toList ++ tail) = (T.written.words ++ ·) <$> munch tail := by
  induction T generalizing id tail with
  | native k => exact munch_free k.name_isFree htail
  | ofClass n =>
    obtain ⟨c, -, hn⟩ := Registry.kind?_of_meaning? hr h
    exact munch_free (hnames c n hn) htail
  | pointer T ih =>
    obtain ⟨t, -, hT⟩ := Registry.kind?_of_meaning? hr h
    -- no word goes on with a star
    have hleaves : Leaves ('*' :: tail) := by
      rintro c ⟨⟩
      decide
    have hstar : munch ('*' :: tail) = (mark .star :: ·) <$> munch tail := munch_mark rfl rfl
    rw [Ty.text, String.toList_append, List.append_assoc]
    refine (ih hT hleaves).trans ?_
    rw [hstar, Functor.map_map, Ty.written, TypeName.words]
    simp only [List.append_assoc, List.singleton_append]
  | array T ih =>
    obtain ⟨t, -, hT⟩ := Registry.kind?_of_meaning? hr h
    have hleaves : Leaves ('[' :: ']' :: tail) := by
      rintro c ⟨⟩
      decide
    have hopen : munch ('[' :: ']' :: tail) = (mark .openBracket :: ·) <$> munch (']' :: tail) :=
      munch_mark rfl rfl
    have hclose : munch (']' :: tail) = (mark .closeBracket :: ·) <$> munch tail :=
      munch_mark rfl rfl
    rw [Ty.text, String.toList_append, List.append_assoc]
    refine (ih hT hleaves).trans ?_
    rw [hopen, hclose, Functor.map_map, Functor.map_map, Ty.written, TypeName.words]
    simp only [List.append_assoc, List.cons_append, List.nil_append]

/-- A text that is cut into words has tokens for them. -/
theorem ofText_of_munch {file source : String} {ws : List Word} (h : munch source.toList = .ok ws) :
    ∃ ts, ofText file source = .ok ts ∧ ts.map word = ws := by
  rw [← scan_eq_munch (.origin file)] at h
  unfold ofText
  cases hscan : scan (.origin file) source.toList with
  | error d => rw [hscan] at h; cases h
  | ok ts =>
    rw [hscan] at h
    cases h
    exact ⟨ts, rfl, rfl⟩

/-- A name that is written in a text is free. -/
theorem isFree_of_namedIn {file source : String} {ts : List Token} {n : String}
    (hts : ofText file source = .ok ts) (h : NamedIn ts n) : IsFree n := by
  obtain ⟨body, last, rfl, hlast, hspells⟩ := spells_of_ofText hts
  obtain ⟨t, ht, hkind, rfl⟩ := h
  rcases List.mem_append.1 ht with hbody | hend
  · have hspelled := hspells t hbody
    rw [hkind] at hspelled
    rw [← String.ofList_toList (s := t.value)]
    exact hspelled.free
  · rw [List.mem_singleton.1 hend, hlast] at hkind
    cases hkind

end Token

/-! ## Reading it as a type -/

namespace TypeName

/-- **The text of a type is read as the type written out**, and then the text is at its end. -/
theorem parse_text {r : Registry} (hr : r.Sound)
    (hnames : ∀ c n, r.className? c = some n → Token.IsFree n) {id : TypeId} {T : Ty}
    (h : r.meaning? id = some T) (file : String) :
    ∃ ts c type c', Token.ofText file T.text = .ok ts ∧ Cursor.ofTokens? file ts = some c ∧
      parse .standard .lowest c = .ok type c' ∧ c'.Shows [mark .eof] ∧
      type.eraseSpans = T.written.eraseSpans := by
  have hmunch : Token.munch T.text.toList = .ok (T.written.words ++ [mark .eof]) := by
    have hend : Token.Leaves [] := by
      rintro c ⟨⟩
    have htype := Token.munch_type hr hnames h hend
    rw [List.append_nil, Token.munch] at htype
    exact htype
  obtain ⟨ts, hts, hwords⟩ := Token.ofText_of_munch hmunch
  have hstart : ∃ c, Cursor.ofTokens? file ts = some c ∧ c.Shows (T.written.words ++ [mark .eof]) := by
    cases ts with
    | nil => exact absurd hwords.symm (List.append_ne_nil_of_right_ne_nil _ (List.cons_ne_nil _ _))
    | cons t ts => exact ⟨_, rfl, rfl, hwords⟩
  obtain ⟨c, hc, hshows⟩ := hstart
  have hstops : Stops [mark .eof] := ⟨_, _, rfl, rfl, by decide, fun h => by cases h⟩
  obtain ⟨type, c', hparse, hshows', htype⟩ := T.written.parse_reads c _ hshows hstops
  exact ⟨ts, c, type, c', hts, hc, hparse, hshows', htype⟩

/-! ## Resolving it -/

/-- A name that is found is resolved, and nothing changes. -/
theorem resolve_named {d : Dialect} {j : ScopeId} {s : Resolver} {n : String} {id : TypeId}
    (h : s.scopes.findType? d.catalog j n = some id) (sp : Span) :
    (named n sp).resolve d j s = .ok id s := by
  refine Resolve.ask_of_ok ?_
  unfold Resolver.typeNamed
  rw [h]

/-- A type that is made from another and has been entered is not entered again. -/
theorem resolve_entered {m : Resolve TypeId} {kind : TypeId → TypeKind} {s : Resolver}
    (hs : s.registry.Sound) {t id : TypeId} (h : m s = .ok t s)
    (hk : s.registry.kind? id = some (kind t)) :
    (do let ty ← m; Resolve.intern (kind ty)) s = .ok id s := by
  rw [bind_of_ok h]
  show (let x := s.registry.intern (kind t); EStateM.Result.ok x.1 { s with registry := x.2 }) = _
  rw [hs.intern_of_kind? hk]

/-- **A type that is written out is resolved to itself** in the global scope, and nothing changes, if the
catalog has the native types under their own names and no class has the name of one. -/
theorem resolve_written {d : Dialect} {s : Resolver} (hs : s.Sound)
    (hcatalog : ∀ k : Native, d.catalog.find? k.name = some k)
    (hclasses : ∀ c n, s.registry.className? c = some n → d.catalog.find? n = none)
    {T : Ty} {id : TypeId} (h : s.registry.meaning? id = some T) {type : TypeName}
    (htype : type.eraseSpans = T.written.eraseSpans) :
    type.resolve d ScopeTree.globalId s = .ok id s := by
  obtain ⟨global, hglobal⟩ := hs.global
  have hfind := hs.findType?_eq hglobal hglobal d.catalog
  induction T generalizing id type with
  | native k =>
    cases type with
    | named n sp =>
      cases htype
      refine resolve_named ?_ sp
      rw [hfind, hcatalog, Registry.eq_native_of_meaning? hs.registry h]
      rfl
    | pointer t sp => cases htype
    | array t sp => cases htype
  | ofClass n =>
    cases type with
    | named n' sp =>
      cases htype
      obtain ⟨c, i, -, hi, rfl, rfl⟩ := hs.class_of_meaning? h
      have hok := hs.classes c i hi
      obtain ⟨sc, hsc, hname⟩ := hok.declared
      rw [hglobal] at hsc
      cases hsc
      refine resolve_named ?_ sp
      -- no native type has this name, so the class is found
      rw [hfind, hclasses c i.name hok.named, hname]
      rfl
    | pointer t sp => cases htype
    | array t sp => cases htype
  | pointer T ih =>
    obtain ⟨t, hk, hT⟩ := Registry.kind?_of_meaning? hs.registry h
    cases type with
    | named n sp => cases htype
    | pointer type sp => exact resolve_entered hs.registry (ih hT (TypeName.pointer.inj htype).1) hk
    | array type sp => cases htype
  | array T ih =>
    obtain ⟨t, hk, hT⟩ := Registry.kind?_of_meaning? hs.registry h
    cases type with
    | named n sp => cases htype
    | pointer type sp => cases htype
    | array type sp => exact resolve_entered hs.registry (ih hT (TypeName.array.inj htype).1) hk

end TypeName

/-! ## The types of a text -/

/-- The classes of a text have free names, and none has the name of a native type. -/
theorem CompilationUnit.classNames_of_text {file source : String} {ts : List Token}
    {u : CompilationUnit} {d : Dialect} {r : Registry} {p : Program}
    (hts : Token.ofText file source = .ok ts) (hu : ofTokens file ts = .ok u)
    (h : u.resolve d = .ok (r, p)) {c : ClassId} {n : String} (hn : r.className? c = some n) :
    Token.IsFree n ∧ d.catalog.find? n = none := by
  have hfrom := ofTokens_yields file ts
  rw [hu] at hfrom
  obtain ⟨cl, hcl, rfl⟩ := className_of_resolve h hn
  obtain ⟨s, -, -, hs⟩ := u.finished_of_resolve h
  have hnative := (hs.wellTyped.declared.classes cl hcl).notNative
  rw [← d.catalog.isSome_find?] at hnative
  refine ⟨Token.isFree_of_namedIn hts (hfrom.classes cl hcl).1, ?_⟩
  exact Option.isNone_iff_eq_none.1 (Option.isSome_eq_false_iff.1 hnative)

theorem Catalog.find?_standard (k : Native) : Catalog.standard.find? k.name = some k := by
  cases k <;> decide +kernel

/-- **The name of a type reads back**: it is the text of a type, up to the end, and this type is resolved
to the type that was named. Nothing is entered. -/
def Registry.ReadsBack (r : Registry) (p : Program) (d : Dialect) (id : TypeId) : Prop :=
  ∀ file, ∃ ts c type c', Token.ofText file (r.typeName id) = .ok ts ∧
    Cursor.ofTokens? file ts = some c ∧ TypeName.parse .standard .lowest c = .ok type c' ∧
    (c'.past = false ∧ c'.current.kind = .eof ∧ c'.ahead = []) ∧
    ∀ m, type.resolve d ScopeTree.globalId ⟨r, p, m⟩ = .ok id ⟨r, p, m⟩

/-- Types whose names read back are told by them. -/
theorem Registry.ReadsBack.eq {r : Registry} {p : Program} {d : Dialect} {a b : TypeId}
    (ha : r.ReadsBack p d a) (hb : r.ReadsBack p d b) (hname : r.typeName a = r.typeName b) : a = b := by
  obtain ⟨ts, c, type, c₁, hts, hc, hparse, -, ha⟩ := ha ""
  obtain ⟨ts', c', type', c₂, hts', hc', hparse', -, hb⟩ := hb ""
  rw [← hname, hts] at hts'
  cases hts'
  rw [hc] at hc'
  cases hc'
  rw [hparse] at hparse'
  cases hparse'
  have hboth := (ha none).symm.trans (hb none)
  cases hboth
  rfl

/-- **Names of types read back.** In the registry of a text, every name reads back to its type, so that
different types have different names. -/
theorem Registry.typeName_reads_back {file source : String} {ts : List Token} {u : CompilationUnit}
    {t : Conversions} {r : Registry} {p : Program} (hts : Token.ofText file source = .ok ts)
    (hu : CompilationUnit.ofTokens file ts = .ok u) (h : u.resolve ⟨.standard, t⟩ = .ok (r, p)) :
    (∀ id, r.Has id → r.ReadsBack p ⟨.standard, t⟩ id) ∧
      ∀ a b, r.Has a → r.Has b → r.typeName a = r.typeName b → a = b := by
  have hnames : ∀ c n, r.className? c = some n → Token.IsFree n ∧ Catalog.standard.find? n = none :=
    fun c n hn => CompilationUnit.classNames_of_text hts hu h hn
  have hreads : ∀ id, r.Has id → r.ReadsBack p ⟨.standard, t⟩ id := by
    intro id hid file'
    obtain ⟨s, rfl, rfl, hs⟩ := u.finished_of_resolve h
    obtain ⟨T, hT⟩ := hs.sound.meaning?_isSome hid
    obtain ⟨ts', c, type, c', hts', hc, hparse, hshows, htype⟩ :=
      TypeName.parse_text hs.sound.registry (fun c n hn => (hnames c n hn).1) hT file'
    refine ⟨ts', c, type, c', ?_, hc, hparse, ⟨hshows.1, hshows.kind, ?_⟩, fun m => ?_⟩
    · rw [typeName_eq hT]
      exact hts'
    · have hrest := hshows.2
      rw [List.map_cons] at hrest
      exact List.map_eq_nil_iff.1 (List.cons.inj hrest).2
    · exact TypeName.resolve_written (hs.sound.within m) Catalog.find?_standard
        (fun c n hn => (hnames c n hn).2) hT htype
  exact ⟨hreads, fun a b ha hb hname => (hreads a ha).eq (hreads b hb) hname⟩

/-! ## A text with nested types -/

def Grid.source : String := "class Cell\n  rows: Cell*[]*;\nend\nscan(marks: Boolean[]*) do end\n"

/-- The names of all types, in their order. -/
def Registry.names (r : Registry) : List String := (List.range r.types.size).map (r.typeName ⟨·⟩)

/-- What the types of the text are called. -/
def Grid.names : List String :=
  ["Void", "Boolean", "Integer", "Int8", "Int16", "Int32", "Int64", "Cell", "Cell*", "Cell*[]",
    "Cell*[]*", "Boolean[]", "Boolean[]*"]

set_option maxRecDepth 100000 in
theorem Grid.compile_names :
    ((compile "a.cls" Grid.source).map fun x => x.1.names).toOption = some Grid.names := by
  decide +kernel

/-- All thirteen types read back, the parts of the written ones among them. -/
theorem Grid.names_read_back : ∃ ts u r p, Token.ofText "a.cls" Grid.source = .ok ts ∧
    CompilationUnit.ofTokens "a.cls" ts = .ok u ∧ u.resolve .standard = .ok (r, p) ∧
    r.names = Grid.names ∧ (∀ id, r.Has id → r.ReadsBack p .standard id) ∧
    ∀ a b, r.Has a → r.Has b → r.typeName a = r.typeName b → a = b := by
  have hnames := Grid.compile_names
  cases hcompile : compile "a.cls" Grid.source with
  | error fault => rw [hcompile] at hnames; cases hnames
  | ok x =>
    rw [hcompile] at hnames
    obtain ⟨ts, u, hts, hu, hresolve⟩ := compile_eq_ok hcompile
    obtain ⟨r, p⟩ := x
    exact ⟨ts, u, r, p, hts, hu, hresolve, Option.some.inj hnames,
      Registry.typeName_reads_back hts hu hresolve⟩

end ClassLang
