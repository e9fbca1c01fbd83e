import Phrasebook.FileTree
import Phrasebook.Host

/-!
# What a file tree keeps

A file that was written is read back, and no other file changes by it (`readText_write`,
`readText_write_of_ne`). Creating folders takes nothing away (`Keeps`). So a store in a folder gives
back what was set last (`get_inFolder_of_set`).
-/

namespace Phrasebook.FileTree

variable {tree later : FileTree} {place found start : Place} {item : FileItem} {name path : String}
  {names : List String} {contents : ByteArray} {text : String}

/-- Every item stays where it is. -/
structure Keeps (tree later : FileTree) : Prop where
  here : later.here = tree.here
  item : ∀ {place item}, tree.item? place = some item → later.item? place = some item

structure KeepsFolders (tree later : FileTree) : Prop where
  here : later.here = tree.here
  folder : ∀ {place}, tree.item? place = some .folder → later.item? place = some .folder

theorem Keeps.keepsFolders (h : tree.Keeps later) : tree.KeepsFolders later := ⟨h.here, h.item⟩

theorem KeepsFolders.enter (h : tree.KeepsFolders later)
    (henter : tree.enter start name = .ok found) : later.enter start name = .ok found := by
  unfold FileTree.enter at henter ⊢
  split at henter
  · cases henter
  · cases henter
  · next hfolder => rwa [h.folder hfolder]

theorem KeepsFolders.follow (h : tree.KeepsFolders later)
    (hfollow : tree.follow start names = .ok found) : later.follow start names = .ok found := by
  induction names generalizing start with
  | nil => exact hfollow
  | cons name rest ih =>
    rw [FileTree.follow, List.foldlM_cons] at hfollow ⊢
    obtain ⟨next, henter, hrest⟩ := bind_eq_ok_iff.1 hfollow
    exact bind_eq_ok_iff.2 ⟨next, h.enter henter, ih hrest⟩

theorem KeepsFolders.locate (h : tree.KeepsFolders later) (hlocate : tree.locate path = .ok found) :
    later.locate path = .ok found := by
  obtain ⟨names, hnames, hfollow⟩ := bind_eq_ok_iff.1 hlocate
  have hstart : later.start path = tree.start path := by rw [FileTree.start, h.here]; rfl
  exact bind_eq_ok_iff.2 ⟨names, hnames, hstart ▸ h.follow hfollow⟩

theorem keepsFolders_put (h : tree.item? place ≠ some .folder) (item : FileItem) :
    tree.KeepsFolders (tree.put place item) where
  here := rfl
  folder := fun {other} hother => by
    have hne : other ≠ place := fun heq => h (heq ▸ hother)
    rw [item?_put_of_ne tree item hne, hother]

theorem ne_nil_of_item? (h : tree.item? place ≠ some .folder) : place ≠ [] := by
  rintro rfl
  exact h rfl

/-! ## Files -/

theorem write_eq_ok (h : tree.write path contents = .ok later) :
    ∃ place, tree.locate path = .ok place ∧ tree.item? place ≠ some .folder ∧
      later = tree.put place (.file contents) := by
  obtain ⟨place, hlocate, hwrite⟩ := bind_eq_ok_iff.1 h
  split at hwrite
  · cases hwrite
  · next hother => exact ⟨place, hlocate, hother, (Except.ok.inj hwrite).symm⟩

theorem readText_eq_ok_iff :
    tree.readText path = .ok text ↔ ∃ place contents, tree.locate path = .ok place ∧
      tree.item? place = some (.file contents) ∧ String.fromUTF8? contents = some text := by
  rw [readText, bind_eq_ok_iff]
  constructor
  · rintro ⟨place, hlocate, hread⟩
    split at hread
    · cases hread
    · cases hread
    · next contents hfile =>
      split at hread
      · next found htext => exact ⟨place, contents, hlocate, hfile, Except.ok.inj hread ▸ htext⟩
      · cases hread
  · rintro ⟨place, contents, hlocate, hfile, htext⟩
    refine ⟨place, hlocate, ?_⟩
    simp only [hfile, htext]

theorem fromUTF8?_toUTF8 (text : String) : String.fromUTF8? text.toUTF8 = some text := by
  rw [String.toUTF8_eq_toByteArray, String.fromUTF8?, dif_pos text.isValidUTF8]
  rfl

theorem readText_write (h : tree.write path text.toUTF8 = .ok later) :
    later.readText path = .ok text := by
  obtain ⟨place, hlocate, hplace, rfl⟩ := write_eq_ok h
  refine readText_eq_ok_iff.2 ⟨place, text.toUTF8, (keepsFolders_put hplace _).locate hlocate,
    item?_put_self tree _ (ne_nil_of_item? hplace),
    fromUTF8?_toUTF8 text⟩

/-- A file in another place stays as it was. -/
theorem readText_write_of_ne {other : String} (h : tree.write path contents = .ok later)
    (hread : tree.readText other = .ok text) (hne : later.locate other ≠ later.locate path) :
    later.readText other = .ok text := by
  obtain ⟨place, hlocate, hplace, rfl⟩ := write_eq_ok h
  obtain ⟨there, found, hthere, hitem, htext⟩ := readText_eq_ok_iff.1 hread
  have hkeeps := keepsFolders_put hplace (.file contents)
  refine readText_eq_ok_iff.2 ⟨there, found, hkeeps.locate hthere, ?_, htext⟩
  rw [item?_put_of_ne, hitem]
  rintro rfl
  exact hne ((hkeeps.locate hthere).trans (hkeeps.locate hlocate).symm)

/-! ## Folders -/

theorem keeps_put (h : tree.item? place = none) (item : FileItem) :
    tree.Keeps (tree.put place item) where
  here := rfl
  item := fun {other _} hother => by
    have hne : other ≠ place := fun heq => by rw [heq, h] at hother; cases hother
    rw [item?_put_of_ne tree item hne, hother]

theorem Keeps.refl (tree : FileTree) : tree.Keeps tree := ⟨rfl, id⟩

theorem Keeps.trans {middle : FileTree} (h : tree.Keeps middle) (h' : middle.Keeps later) :
    tree.Keeps later :=
  ⟨h'.here.trans h.here, fun hitem => h'.item (h.item hitem)⟩

theorem keeps_createFolder (h : tree.createFolder path = .ok later) : tree.Keeps later := by
  obtain ⟨names, -, hcreate⟩ := bind_eq_ok_iff.1 h
  split at hcreate
  · cases hcreate
  · obtain ⟨place, -, hput⟩ := bind_eq_ok_iff.1 hcreate
    split at hput
    · cases hput
    · next hnone =>
      obtain rfl := Except.ok.inj hput
      exact keeps_put hnone .folder

theorem keeps_createAll {paths : List String} (h : tree.createAll paths = .ok later) :
    tree.Keeps later := by
  induction paths generalizing later with
  | nil =>
    obtain rfl := Except.ok.inj h
    exact .refl tree
  | cons path above ih =>
    unfold createAll at h
    split at h
    · next hcreate =>
      obtain rfl := Except.ok.inj h
      exact keeps_createFolder hcreate
    · obtain ⟨middle, habove, hlast⟩ := bind_eq_ok_iff.1 h
      have hkept := ih habove
      split at hlast
      · next hcreate =>
        obtain rfl := Except.ok.inj hlast
        exact hkept.trans (keeps_createFolder hcreate)
      · split at hlast
        · obtain rfl := Except.ok.inj hlast
          exact hkept
        · cases hlast
    · split at h
      · obtain rfl := Except.ok.inj h
        exact .refl tree
      · cases h

/-- Creating folders takes nothing away: what could be read can still be read. -/
theorem readText_createFolders {other : String} (h : tree.createFolders path = .ok later)
    (hread : tree.readText other = .ok text) : later.readText other = .ok text := by
  have hkeeps := keeps_createAll h
  obtain ⟨place, contents, hlocate, hitem, htext⟩ := readText_eq_ok_iff.1 hread
  exact readText_eq_ok_iff.2
    ⟨place, contents, hkeeps.keepsFolders.locate hlocate, hkeeps.item hitem, htext⟩

/-! ## Stores -/

theorem run_attempt (action : FileTree → Except TreeFault FileTree) (tree : FileTree) :
    (attempt action).run tree =
      match action tree with
      | .ok later => (.ok (), later)
      | .error fault => (.error fault.message, tree) := by
  cases haction : action tree with
  | ok later => simp [attempt, haction]; rfl
  | error fault => simp [attempt, haction]; rfl

variable {network : String → Except String Response} {folder key value : String}

theorem run_get_inFolder (tree : FileTree) :
    ((PreferenceStore.inFolder (host network) folder).get key).run tree =
      (match tree.readText (Path.join folder key) with
        | .ok contents => .ok (PreferenceStore.stored? contents)
        | .error .missing => .ok none
        | .error fault => .error (.refused .read (Path.join folder key) fault.message), tree) := by
  have hread : ((host network).readText (Path.join folder key)).run tree =
    ((tree.readText (Path.join folder key)).mapError readFault, tree) := rfl
  simp only [PreferenceStore.inFolder, StateT.run_bind, hread]
  cases tree.readText (Path.join folder key) with
  | ok contents => rfl
  | error fault => cases fault <;> rfl

theorem run_set_inFolder (tree : FileTree) :
    ((PreferenceStore.inFolder (host network) folder).set key value).run tree =
      match tree.createFolders folder with
      | .error fault => (.error (.refused .create folder fault.message), tree)
      | .ok made =>
        match made.write (Path.join folder key) value.toUTF8 with
        | .error fault => (.error (.refused .write (Path.join folder key) fault.message), made)
        | .ok later => (.ok (), later) := by
  have hcreate : ((host network).createFolders folder).run tree =
    (attempt (·.createFolders folder)).run tree := rfl
  have hwrite (made : FileTree) : ((host network).writeText (Path.join folder key) value).run made =
    (attempt (·.write (Path.join folder key) value.toUTF8)).run made := rfl
  simp only [PreferenceStore.inFolder, StateT.run_bind, hcreate, run_attempt]
  cases tree.createFolders folder with
  | error fault => rfl
  | ok made =>
    show StateT.run (_ >>= _) made = _
    rw [StateT.run_bind, hwrite, run_attempt]
    dsimp only
    cases made.write (Path.join folder key) value.toUTF8 with
    | error fault => rfl
    | ok later => rfl

/-- **A store in a folder gives back what was set last**, without the white space around it. -/
theorem get_inFolder_of_set
    (h : ((PreferenceStore.inFolder (host network) folder).set key value).run tree =
      (.ok (), later)) :
    ((PreferenceStore.inFolder (host network) folder).get key).run later =
      (.ok (PreferenceStore.stored? value), later) := by
  rw [run_set_inFolder] at h
  split at h
  · cases h
  · split at h
    · cases h
    · next hwrite =>
      obtain ⟨-, rfl⟩ := Prod.mk.inj h
      rw [run_get_inFolder, readText_write hwrite]

/-- Whatever comes of it, setting a text takes no other file away and changes none. -/
theorem readText_of_set {other : String} {result : Except StoreFault Unit}
    (h : ((PreferenceStore.inFolder (host network) folder).set key value).run tree =
      (result, later))
    (hread : tree.readText other = .ok text)
    (hne : later.locate other ≠ later.locate (Path.join folder key)) :
    later.readText other = .ok text := by
  rw [run_set_inFolder] at h
  split at h
  · obtain ⟨-, rfl⟩ := Prod.mk.inj h
    exact hread
  · next made hmade =>
    have hkept := readText_createFolders hmade hread
    split at h
    · obtain ⟨-, rfl⟩ := Prod.mk.inj h
      exact hkept
    · next hwrite =>
      obtain ⟨-, rfl⟩ := Prod.mk.inj h
      exact readText_write_of_ne hwrite hkept hne

end Phrasebook.FileTree
