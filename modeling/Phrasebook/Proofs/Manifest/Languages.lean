import Phrasebook.Manifest.Reading
import Phrasebook.Proofs.Manifest.Fields
import Phrasebook.Proofs.Registry.Normalization
import Phrasebook.Settings

/-!
# From a manifest to the registry

No language of a manifest is lost on the way to the registry. `listed` reads the languages off the
document of a manifest, with repeated names and all; a manifest that is accepted has each of them
once, with the last value of its name, and that value has just one of a path and an address
(`Lists`). The configuration has a loader for each of them, and the registry has the default
language besides (`Covers`).
-/

namespace Phrasebook.Manifest

/-! ## The document -/

/-- The languages in the document of a manifest. A name may be there more than once. -/
def listed (document : Document) : List (String × Document) :=
  match (Draft.form.named document).lookup "languages" with
  | some (.object fields) => named fields
  | _ => []

def text? : Document → Option String
  | .string spelling => spelling.text?
  | _ => none

def textIn (value : Document) (name : String) : Option String :=
  ((LanguageDraft.form.named value).lookup name).bind text?

def directionIn (value : Document) : Direction :=
  (((LanguageDraft.form.named value).lookup "direction").bind (direction · |>.toOption)).getD .ltr

/-- The value describes the language, and its dataset is in just one place. -/
structure Describes (value : Document) (entry : LanguageEntry) : Prop where
  one : (textIn value "path").isSome = !(textIn value "url").isSome
  path : ∀ path, textIn value "path" = some path ↔ entry.source = .file path
  url : ∀ url, textIn value "url" = some url ↔ entry.source = .address url
  direction : entry.direction = directionIn value

/-- The languages of the document, each once and as its last value says. -/
structure Lists (document : Document) (languages : List (String × LanguageEntry)) : Prop where
  ascending : (languages.map (·.1)).Pairwise fun a b => Text.bytes a < Text.bytes b
  mem_codes : ∀ c, c ∈ languages.map (·.1) ↔ c ∈ (listed document).map (·.1)
  described : ∀ c value, (listed document).reverse.lookup c = some value →
    ∃ entry, languages.lookup c = some entry ∧ Describes value entry

/-! ## Reading -/

variable {name : String} {value : Document} {draft draft' : LanguageDraft}

namespace LanguageDraft

theorem keeps_of_put (h : form.put draft name value = .ok draft') :
    (name ≠ "path" → draft'.path = draft.path) ∧ (name ≠ "url" → draft'.url = draft.url) ∧
      (name ≠ "direction" → draft'.direction = draft.direction) := by
  have hput : put draft name value = .ok draft' := h
  unfold put at hput
  split at hput
  case h_4 =>
    cases hput
    exact ⟨fun _ => rfl, fun _ => rfl, fun _ => rfl⟩
  all_goals
    obtain ⟨given, -, h⟩ := bind_eq_ok_iff.1 hput
    cases h
    simp

theorem slot_path : form.Slot "path" LanguageDraft.path (optional (text "path string")) :=
  .of_once (fun draft path => { draft with path }) rfl (fun _ _ => rfl) (fun _ _ => rfl)
    fun hne h => (keeps_of_put h).1 hne

theorem slot_url : form.Slot "url" LanguageDraft.url (optional (text "a string")) :=
  .of_once (fun draft url => { draft with url }) rfl (fun _ _ => rfl) (fun _ _ => rfl)
    fun hne h => (keeps_of_put h).2.1 hne

theorem slot_direction : form.Slot "direction" LanguageDraft.direction Manifest.direction :=
  .of_once (fun draft direction => { draft with direction }) rfl (fun _ _ => rfl) (fun _ _ => rfl)
    fun hne h => (keeps_of_put h).2.2 hne

end LanguageDraft

theorem eq_text?_of_optional {expected : String} {content : Option String}
    (h : optional (text expected) value = .ok content) : content = text? value := by
  cases value with
  | null =>
    cases h
    rfl
  | string spelling =>
    simp only [optional, text, spelled] at h
    show content = spelling.text?
    cases htext : spelling.text? with
    | none =>
      rw [htext] at h
      cases h
    | some found =>
      rw [htext] at h
      cases h
      rfl
  | _ => cases h

theorem join_eq_textIn {expected : String} {given : Option (Option String)}
    (h : ((LanguageDraft.form.named value).lookup name).map (optional (text expected)) =
      given.map .ok) : given.join = textIn value name := by
  unfold textIn
  obtain ⟨hfound, rfl⟩ | ⟨found, content, hfound, rfl, hread⟩ := map_eq_map_ok_iff.1 h
  · rw [hfound]
    rfl
  · rw [hfound, Option.join_some, eq_text?_of_optional hread]
    rfl

theorem getD_eq_directionIn (h : LanguageDraft.form.read value = .ok draft) :
    draft.direction.getD .ltr = directionIn value := by
  unfold directionIn
  obtain ⟨hfound, hgiven⟩ | ⟨found, chosen, hfound, hgiven, hread⟩ :=
    map_eq_map_ok_iff.1 (LanguageDraft.slot_direction.map_lookup h)
  · rw [hfound, hgiven]
    rfl
  · rw [hfound, hgiven, Option.bind_some, hread]
    rfl

theorem describes_of_read {entry : LanguageEntry} (h : LanguageDraft.form.read value = .ok draft)
    (hentry : draft.entry? = some entry) : Describes value entry := by
  have hpath : draft.path.join = textIn value "path" :=
    join_eq_textIn (LanguageDraft.slot_path.map_lookup h)
  have hurl : draft.url.join = textIn value "url" :=
    join_eq_textIn (LanguageDraft.slot_url.map_lookup h)
  have hdirection := getD_eq_directionIn h
  unfold LanguageDraft.entry? at hentry
  rw [hpath, hurl, hdirection] at hentry
  split at hentry
  · next path hsome hnone =>
    cases hentry
    constructor <;> simp [hsome, hnone]
  · next url hnone hsome =>
    cases hentry
    constructor <;> simp [hsome, hnone]
  · cases hentry

namespace Draft

variable {document : Document} {draft draft' : Draft} {drafts rest : List (String × LanguageDraft)}
  {languages : List (String × LanguageEntry)} {code c : String}

theorem languages_of_put (hne : name ≠ "languages")
    (h : form.put draft name value = .ok draft') : draft'.languages = draft.languages := by
  have hput : put draft name value = .ok draft' := h
  unfold put at hput
  split at hput
  case h_2 => exact absurd rfl hne
  case h_8 =>
    cases hput
    rfl
  all_goals
    obtain ⟨given, -, h⟩ := bind_eq_ok_iff.1 hput
    cases h
    rfl

theorem slot_languages :
    form.Slot "languages" Draft.languages (dictionary LanguageDraft.form.read) :=
  .of_once (fun draft languages => { draft with languages }) rfl (fun _ _ => rfl) (fun _ _ => rfl)
    languages_of_put

/-- The drafts hold what is read from the last value of each name. -/
theorem languages_of_read (h : form.read document = .ok draft) :
    ((draft.languages.getD []).map (·.1)).Pairwise (· < ·) ∧
      ∀ c, ((listed document).reverse.lookup c).map LanguageDraft.form.read =
        ((draft.languages.getD []).lookup c).map .ok := by
  unfold listed
  obtain ⟨hfound, hgiven⟩ | ⟨found, drafts, hfound, hgiven, hread⟩ :=
    map_eq_map_ok_iff.1 (slot_languages.map_lookup h)
  · rw [hfound, hgiven]
    exact ⟨List.Pairwise.nil, fun _ => rfl⟩
  · rw [hfound, hgiven]
    cases found with
    | object fields => exact ⟨pairwise_dictionary hread, lookup_dictionary hread⟩
    | _ => cases hread

theorem entries_cons_eq_ok_iff {draft : LanguageDraft} :
    entries ((code, draft) :: rest) = .ok languages ↔
      ∃ entry others, draft.entry? = some entry ∧ entries rest = .ok others ∧
        languages = (code, entry) :: others := by
  unfold entries
  rw [mapM_cons_eq_ok_iff]
  cases hentry : draft.entry? with
  | none => simp [hentry]
  | some entry => simp [hentry]

/-- No language is left out. -/
theorem codes_of_entries (h : entries drafts = .ok languages) :
    languages.map (·.1) = drafts.map (·.1) := by
  induction drafts generalizing languages with
  | nil =>
    cases h
    rfl
  | cons first rest ih =>
    obtain ⟨entry, others, -, hrest, rfl⟩ := entries_cons_eq_ok_iff.1 h
    rw [List.map_cons, List.map_cons, ih hrest]

theorem lookup_of_entries (h : entries drafts = .ok languages) (c : String) :
    (drafts.lookup c).map LanguageDraft.entry? = (languages.lookup c).map some := by
  induction drafts generalizing languages with
  | nil =>
    cases h
    rfl
  | cons first rest ih =>
    obtain ⟨code, draft⟩ := first
    obtain ⟨entry, others, hentry, hrest, rfl⟩ := entries_cons_eq_ok_iff.1 h
    rw [List.lookup_cons, List.lookup_cons]
    split
    · rw [Option.map_some, Option.map_some, hentry]
    · exact ih hrest

theorem lists_of_read (h : form.read document = .ok draft)
    (hentries : entries (draft.languages.getD []) = .ok languages) :
    Lists document languages := by
  obtain ⟨hascending, hlookup⟩ := languages_of_read h
  have hcodes := codes_of_entries hentries
  refine ⟨?_, fun c => ?_, fun c value hvalue => ?_⟩
  · rw [hcodes]
    exact hascending.imp Text.bytes_lt_iff.2
  · have hsome := congrArg Option.isSome (hlookup c)
    rw [Option.isSome_map, Option.isSome_map] at hsome
    calc c ∈ languages.map (·.1)
        ↔ c ∈ (draft.languages.getD []).map (·.1) := by rw [hcodes]
      _ ↔ c ∈ (listed document).reverse.map (·.1) := by
        rw [← Registry.isSome_lookup_iff, ← hsome, Registry.isSome_lookup_iff]
      _ ↔ c ∈ (listed document).map (·.1) := by rw [List.map_reverse, List.mem_reverse]
  · obtain ⟨hnone, -⟩ | ⟨found, draft', hfound, hgiven, hread⟩ :=
      map_eq_map_ok_iff.1 (hlookup c)
    · rw [hnone] at hvalue
      cases hvalue
    · obtain rfl : found = value := Option.some.inj (hfound.symm.trans hvalue)
      have hentry := lookup_of_entries hentries c
      rw [hgiven, Option.map_some] at hentry
      obtain ⟨entry, hentry, hdraft⟩ := Option.map_eq_some_iff.1 hentry.symm
      exact ⟨entry, hentry, describes_of_read hread hdraft.symm⟩

end Draft

theorem exists_of_read {text folder : String} {manifest : Manifest}
    (h : Manifest.read text folder = .ok manifest) :
    ∃ document draft, Document.read text = some document ∧ Draft.form.read document = .ok draft ∧
      Draft.entries (draft.languages.getD []) = .ok manifest.languages := by
  unfold Manifest.read at h
  split at h
  · cases h
  · next document hdocument =>
    split at h
    · next draft default hdraft =>
      obtain ⟨draft, hform, hdefault⟩ := bind_eq_ok_iff.1 hdraft
      obtain ⟨default, -, hdefault⟩ := bind_eq_ok_iff.1 hdefault
      cases hdefault
      obtain ⟨languages, hentries, h⟩ := bind_eq_ok_iff.1 h
      cases h
      exact ⟨document, draft, hdocument, hform, hentries⟩
    · cases h

/-! ## The registry -/

variable {text folder : String} {manifest : Manifest} {schema : Schema}
  {config : Configuration DatasetSource} {entry : LanguageEntry} {c : String}

/-- The configuration has a loader for each language of the manifest. -/
structure Loads (manifest : Manifest) (config : Configuration DatasetSource) : Prop where
  codes : config.languages.map (·.1) = manifest.languages.map (·.1)
  loader : ∀ c entry, manifest.languages.lookup c = some entry →
    config.languages.lookup c =
      some ⟨.loader (entry.source.below manifest.folder), entry.direction⟩

/-- The registry has just the default language and those of the manifest. -/
structure Covers (manifest : Manifest) (schema : Schema) (registry : Registry DatasetSource) :
    Prop where
  ascending : registry.codes.Pairwise fun a b => Text.bytes a < Text.bytes b
  mem_codes : ∀ c, c ∈ registry.codes ↔
    c = manifest.default.code ∨ c ∈ manifest.languages.map (·.1)
  default : registry.find? manifest.default.code = some
    { code := manifest.default.code, direction := manifest.default.direction, loader := none,
      cell := { dataset := some schema.value } }
  lazy : ∀ c entry, c ≠ manifest.default.code → manifest.languages.lookup c = some entry →
    registry.find? c = some
      { code := c, direction := entry.direction,
        loader := some (entry.source.below manifest.folder), cell := { dataset := none } }

theorem lookup_map (languages : List (String × LanguageEntry)) (folder c : String) :
    (languages.map fun (code, entry) => (code, languageInfo folder entry)).lookup c =
      (languages.lookup c).map (languageInfo folder) := by
  induction languages with
  | nil => rfl
  | cons first rest ih =>
    rw [List.map_cons, List.lookup_cons, List.lookup_cons]
    split
    · rfl
    · exact ih

theorem loads_configuration (manifest : Manifest) (schema : Schema) :
    Loads manifest (manifest.configuration schema) where
  codes := List.map_map
  loader c entry h := by
    show List.lookup c (manifest.languages.map _) = _
    rw [lookup_map, h]
    rfl

theorem Loads.covers (h : Loads manifest config)
    (hdefault : config.default = (manifest.configuration schema).default) :
    Covers manifest schema (Registry.ofConfiguration config) := by
  have hregisters := Registry.registers_ofConfiguration config
  refine ⟨hregisters.ascending, fun c => ?_, ?_, fun c entry hc hentry => ?_⟩
  · have hmem := hregisters.mem_codes c
    rw [h.codes, hdefault] at hmem
    exact hmem
  · have hfind := hregisters.default
    rw [hdefault] at hfind
    exact hfind
  · exact hregisters.lazy c _ _ (by rw [hdefault]; exact hc) (h.loader c entry hentry)

theorem run_configure {World : Type} {host : Host (StateM World)} {world after : World}
    {value : Json}
    (hread : (host.readJson "default strings" manifest.defaultPath).run world = (.ok value, after))
    (hschema : Schema.ofJson value = .ok schema) :
    (manifest.configure host).run world = (.ok (manifest.configuration schema), after) := by
  unfold Manifest.configure
  rw [StateT.run_bind, hread]
  simp only [bind, hschema]
  rfl

/-- **No language of a manifest is lost.** A manifest that is accepted has each language of its
document once; if the default language's strings are a schema, then sessions are configured with a
loader for each of them, and the registry has each of them besides the default language. -/
theorem registers_languages {World : Type} {host : Host (StateM World)} {world after : World}
    {value : Json} (hmanifest : Manifest.read text folder = .ok manifest)
    (hread : (host.readJson "default strings" manifest.defaultPath).run world = (.ok value, after))
    (hschema : Schema.ofJson value = .ok schema) :
    (∃ document, Document.read text = some document ∧ Lists document manifest.languages) ∧
      ∃ config, (manifest.configure host).run world = (.ok config, after) ∧
        Loads manifest config ∧
        Covers manifest schema (Registry.ofConfiguration config) ∧
        ∀ settings : Settings,
          Covers manifest schema (Registry.ofConfiguration (settings.apply config)) := by
  obtain ⟨document, draft, hdocument, hform, hentries⟩ := exists_of_read hmanifest
  have hloads := loads_configuration manifest schema
  have happly (settings : Settings) :
      Loads manifest (settings.apply (manifest.configuration schema)) :=
    ⟨hloads.codes, hloads.loader⟩
  exact ⟨⟨document, hdocument, Draft.lists_of_read hform hentries⟩, _,
    run_configure hread hschema, hloads, hloads.covers rfl, fun settings =>
      (happly settings).covers rfl⟩

/-- A manifest with a repeated language, a path that is null, and the default language once more
among the others. -/
def crowded : String :=
  "\x7b\"default\":\x7b\"code\":\"en\",\"path\":\"en.json\"\x7d,\"languages\":\x7b
  \"fr\":\x7b\"path\":\"old\",\"url\":\"old\"\x7d,
  \"en\":\x7b\"path\":\"other\",\"direction\":\"rtl\"\x7d,
  \"de\":\x7b\"path\":null,\"url\":\"//de\"\x7d,\"fr\":\x7b\"path\":\"fr.json\"\x7d\x7d\x7d"

/-- A system that has nothing but the default language's strings. -/
def lone : Host (StateM Unit) where
  readText path := return match path with
    | "strings/en.json" => .ok "\x7b\"hello\":\"Hello\"\x7d"
    | _ => .error (.missing "no such file")
  createFolders _ := return .ok ()
  writeText _ _ := return .ok ()
  request _ := return .error "no network"
  wait _ := return ()

theorem registers_languages_crowded :
    ∃ manifest value schema,
      Manifest.read crowded "strings" = .ok manifest ∧
      (lone.readJson "default strings" manifest.defaultPath).run () = (.ok value, ()) ∧
      Schema.ofJson value = .ok schema ∧
      manifest.languages = [("de", ⟨.address "//de", .ltr⟩),
        ("en", ⟨.file "other", .rtl⟩), ("fr", ⟨.file "fr.json", .ltr⟩)] ∧
      (∃ document, Document.read crowded = some document ∧ Lists document manifest.languages) ∧
      ∃ config, (manifest.configure lone).run () = (.ok config, ()) ∧
        Loads manifest config ∧
        Covers manifest schema (Registry.ofConfiguration config) ∧
        ∀ settings : Settings,
          Covers manifest schema (Registry.ofConfiguration (settings.apply config)) := by
  have hfound : (Manifest.read crowded "strings").toOption.map
      (fun manifest => (manifest.languages, manifest.defaultPath)) =
        some ([("de", ⟨.address "//de", .ltr⟩),
          ("en", ⟨.file "other", .rtl⟩), ("fr", ⟨.file "fr.json", .ltr⟩)],
          "strings/en.json") := by
    decide +kernel
  have hstrings : (((lone.readJson "default strings" "strings/en.json").run ()).1.toOption.bind
      fun value => (Schema.ofJson value).toOption).isSome = true := by
    decide +kernel
  obtain ⟨manifest, hmanifest, hparts⟩ := Option.map_eq_some_iff.1 hfound
  obtain ⟨hlanguages, hpath⟩ := Prod.mk.inj hparts
  obtain ⟨schema, hschema⟩ := Option.isSome_iff_exists.1 hstrings
  obtain ⟨value, hvalue, hschema⟩ := Option.bind_eq_some_iff.1 hschema
  rw [toOption_eq_some_iff] at hmanifest hvalue hschema
  have hread : (lone.readJson "default strings" manifest.defaultPath).run () = (.ok value, ()) := by
    rw [hpath]
    exact Prod.ext hvalue (Subsingleton.elim _ _)
  exact ⟨manifest, value, schema, hmanifest, hread, hschema, hlanguages,
    registers_languages hmanifest hread hschema⟩

end Phrasebook.Manifest
