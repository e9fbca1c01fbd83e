import Mathlib.Data.List.Sort
import Phrasebook.Proofs.Registry.Languages
import Phrasebook.Proofs.Text

/-!
# The registry of a configuration

A registry is determined by what `find?` sees in it, since its languages are ascending by code
(`eq_of_find?_eq`). What `find?` sees in the registry of a configuration is the default language and
for every other code its first entry. So two configurations with one default language have the same
registry if and only if the first entries agree (`ofConfiguration_eq_iff`), wherever these stand and
whatever comes after them.
-/

namespace Phrasebook.Registry

variable {L : Type} {languages others : List (Language L)} {language : Language L}
  {config other : Configuration L} {c : String}

theorem find?_eq_some_iff (h : languages.Pairwise (·.code < ·.code)) :
    languages.find? (·.code = c) = some language ↔ language ∈ languages ∧ language.code = c := by
  constructor
  · intro hfind
    exact ⟨List.mem_of_find?_eq_some hfind, by simpa using List.find?_some hfind⟩
  · rintro ⟨hmem, rfl⟩
    induction languages with
    | nil => cases hmem
    | cons first rest ih =>
      obtain ⟨hfirst, hrest⟩ := List.pairwise_cons.1 h
      rcases List.mem_cons.1 hmem with rfl | hmem
      · exact List.find?_cons_of_pos (by simp)
      · have hne : first.code ≠ language.code := fun heq =>
          String.lt_irrefl _ (heq ▸ hfirst language hmem)
        rw [List.find?_cons_of_neg (by simpa using hne), ih hrest hmem]

theorem eq_of_find?_eq (h : languages.Pairwise (·.code < ·.code))
    (h' : others.Pairwise (·.code < ·.code))
    (hfind : ∀ c, languages.find? (·.code = c) = others.find? (·.code = c)) :
    languages = others := by
  have hantisymm : Std.Antisymm fun a b : Language L => a.code < b.code :=
    ⟨fun a b hab hba => absurd hba (String.lt_asymm hab)⟩
  have hirrefl : Std.Irrefl fun a b : Language L => a.code < b.code :=
    ⟨fun a => String.lt_irrefl a.code⟩
  refine List.Pairwise.eq_of_mem_iff h h' fun language => ?_
  have hmem {languages : List (Language L)} (h : languages.Pairwise (·.code < ·.code)) :
      language ∈ languages ↔ languages.find? (·.code = language.code) = some language :=
    (and_iff_left rfl).symm.trans (find?_eq_some_iff h).symm
  rw [hmem h, hmem h', hfind]

theorem ofInfo_injective {code : String} : Function.Injective (Language.ofInfo (L := L) code) := by
  rintro ⟨source, direction⟩ ⟨source', direction'⟩ h
  cases source <;> cases source' <;> simp_all [Language.ofInfo]

theorem ofConfiguration_eq_iff (hdefault : other.default = config.default) :
    ofConfiguration other = ofConfiguration config ↔
      ∀ c, c ≠ config.default.code → other.languages.lookup c = config.languages.lookup c := by
  constructor
  · intro h c hc
    have hfind : (ofConfiguration other).find? c = (ofConfiguration config).find? c := by rw [h]
    rw [find?_ofConfiguration (hdefault ▸ hc), find?_ofConfiguration hc] at hfind
    exact Option.map_injective ofInfo_injective hfind
  · intro h
    have hlanguages : (ofConfiguration other).languages = (ofConfiguration config).languages := by
      refine eq_of_find?_eq (pairwise_ofConfiguration _) (pairwise_ofConfiguration _) fun c => ?_
      show (ofConfiguration other).find? c = (ofConfiguration config).find? c
      by_cases hc : c = config.default.code
      · have hother := find?_ofConfiguration_default other
        rw [hdefault] at hother
        rw [hc, hother, find?_ofConfiguration_default]
      · rw [find?_ofConfiguration (hdefault ▸ hc), find?_ofConfiguration hc, h c hc]
    have hcode : (ofConfiguration other).defaultCode = (ofConfiguration config).defaultCode :=
      congrArg DefaultStrings.code hdefault
    calc ofConfiguration other
        = ⟨(ofConfiguration other).defaultCode, (ofConfiguration other).languages⟩ := rfl
      _ = ofConfiguration config := by rw [hlanguages, hcode]

/-- The languages may be configured in any way that keeps the first entry of each code. -/
theorem ofConfiguration_congr {entries : List (String × LanguageInfo L)}
    (h : ∀ c, c ≠ config.default.code → entries.lookup c = config.languages.lookup c) :
    ofConfiguration { config with languages := entries } = ofConfiguration config := by
  have hdefault : ({ config with languages := entries } : Configuration L).default
      = config.default := rfl
  exact (ofConfiguration_eq_iff hdefault).2 h

theorem isSome_lookup_iff {α : Type} {entries : List (String × α)} :
    (entries.lookup c).isSome = true ↔ c ∈ entries.map (·.1) := by
  rw [List.lookup_isSome_iff, List.mem_map]
  simp only [beq_iff_eq, @eq_comm _ c]

theorem mem_codes_iff (config : Configuration L) (c : String) :
    c ∈ (ofConfiguration config).codes ↔
      c = config.default.code ∨ c ∈ config.languages.map (·.1) := by
  have hcodes : c ∈ (ofConfiguration config).codes ↔
      ((ofConfiguration config).find? c).isSome = true := by
    rw [find?, List.find?_isSome, codes, List.mem_map]
    simp
  by_cases hc : c = config.default.code
  · rw [hcodes, hc, find?_ofConfiguration_default]
    simp
  · rw [hcodes, find?_ofConfiguration hc, Option.isSome_map, isSome_lookup_iff]
    simp [hc]

/-! ## Entries that make no difference -/

section Entries

variable {α : Type} {entries before extra after : List (String × α)}

theorem lookup_eq_head?_filter (entries : List (String × α)) (c : String) :
    entries.lookup c = (entries.filter (·.1 = c)).head?.map (·.2) := by
  induction entries with
  | nil => rfl
  | cons entry rest ih =>
    obtain ⟨code, value⟩ := entry
    by_cases hc : code = c
    · simp [hc]
    · simp [List.lookup_cons, beq_false_of_ne (Ne.symm hc), hc, ih]

theorem lookup_append_append (hc : c ∈ extra.map (·.1) → c ∈ before.map (·.1)) :
    (before ++ extra ++ after).lookup c = (before ++ after).lookup c := by
  rw [List.lookup_append, List.lookup_append, List.lookup_append]
  cases hextra : extra.lookup c with
  | none => rw [Option.or_none]
  | some value =>
    have hmem : c ∈ extra.map (·.1) := isSome_lookup_iff.1 (by rw [hextra]; rfl)
    obtain ⟨first, hfirst⟩ := Option.isSome_iff_exists.1 (isSome_lookup_iff.2 (hc hmem))
    rw [hfirst]
    rfl

end Entries

/-- A registry has just the languages of a configuration, each once and as its first entry says. -/
structure Registers (registry : Registry L) (config : Configuration L) : Prop where
  defaultCode : registry.defaultCode = config.default.code
  ascending : registry.codes.Pairwise fun a b => Text.bytes a < Text.bytes b
  mem_codes : ∀ c, c ∈ registry.codes ↔ c = config.default.code ∨ c ∈ config.languages.map (·.1)
  default : registry.find? config.default.code = some
    { code := config.default.code, direction := config.default.direction, loader := none,
      cell := { dataset := some config.default.schema.value } }
  inline : ∀ c dataset direction, c ≠ config.default.code →
    config.languages.lookup c = some ⟨.inline dataset, direction⟩ →
    registry.find? c = some
      { code := c, direction, loader := none, cell := { dataset := some dataset } }
  lazy : ∀ c loader direction, c ≠ config.default.code →
    config.languages.lookup c = some ⟨.loader loader, direction⟩ →
    registry.find? c = some
      { code := c, direction, loader := some loader, cell := { dataset := none } }
  dataset_or_loader : ∀ language ∈ registry.languages,
    language.cell.dataset.isSome = true ↔ language.loader.isSome = false

theorem registers_ofConfiguration (config : Configuration L) :
    Registers (ofConfiguration config) config where
  defaultCode := rfl
  ascending := by
    have h := pairwise_ofConfiguration config
    rw [codes, List.pairwise_map]
    exact h.imp Text.bytes_lt_iff.2
  mem_codes := mem_codes_iff config
  default := find?_ofConfiguration_default config
  inline c dataset direction hc hlookup := by
    rw [find?_ofConfiguration hc, hlookup]
    rfl
  lazy c loader direction hc hlookup := by
    rw [find?_ofConfiguration hc, hlookup]
    rfl
  dataset_or_loader language hmem := by
    rw [(of_mem_ofConfiguration hmem).2, Option.isSome_eq_false_iff, Option.isNone_iff_eq_none]

/-- **The registry of a configuration** has the default language and the first entry of each other
code. Changing the order of the entries of different codes makes no difference, nor do more
entries whose codes are taken. -/
theorem normalizes (config : Configuration L) :
    Registers (ofConfiguration config) config ∧
      (∀ other : Configuration L, other.default = config.default →
        (ofConfiguration other = ofConfiguration config ↔ ∀ c, c ≠ config.default.code →
          other.languages.lookup c = config.languages.lookup c)) ∧
      (∀ entries : List (String × LanguageInfo L),
        (∀ c, entries.filter (·.1 = c) = config.languages.filter (·.1 = c)) →
          ofConfiguration { config with languages := entries } = ofConfiguration config) ∧
      ∀ before extra after : List (String × LanguageInfo L), config.languages = before ++ after →
        (∀ c ∈ extra.map (·.1), c = config.default.code ∨ c ∈ before.map (·.1)) →
          ofConfiguration { config with languages := before ++ extra ++ after } =
            ofConfiguration config := by
  refine ⟨registers_ofConfiguration config, fun other => ofConfiguration_eq_iff,
    fun entries h => ?_, fun before extra after heq htaken => ?_⟩
  · refine ofConfiguration_congr fun c _ => ?_
    rw [lookup_eq_head?_filter, lookup_eq_head?_filter, h]
  · refine ofConfiguration_congr fun c hc => ?_
    rw [heq]
    exact lookup_append_append fun hextra => (htaken c hextra).resolve_left hc

end Phrasebook.Registry
