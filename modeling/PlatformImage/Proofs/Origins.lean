import PlatformImage.Proofs.Alike
/-! Where the modules of an image come from.

Opening a root adds modules one by one, each under the name of the path that it is read from:
the last name of a directory, or that of an archive without the extension. So each module
that is there afterwards has such an origin (`origin_of_ofRoot`), and in an image that is up to
date it still has it (`origin_of_open`). -/
namespace PlatformImage.Image

/-- Where a module with a name comes from, in each of the layouts. -/
inductive Origin (fs : FileSystem) (name : String) : Layout → Module → Prop
  | directory {path : String} {entries : List (String × Node)}
    (hname : Path.fileName? path = some name) (hnode : fs.node? path = .ok (.directory entries))
    (hfits : Module.fits path entries) :
    Origin fs name .exploded ⟨.directory path, Module.scan fs path "" .root entries⟩
  | archive {path : String} {zip : Archive.Zip} (hname : Path.stem? path = some name)
    (hjmod : isJmod path = true) (hzip : Contents.archive? fs path = some zip) :
    Origin fs name .jmods (.ofArchive path zip)

/-- Something holds of every module in a map, and its name. -/
def Every (P : String → Module → Prop) (known : NameMap Module) : Prop :=
  ∀ name m, known.get? name = some m → P name m

section
variable {fs : FileSystem} {known : NameMap Module} {skipped : List String} {path base : String}
  {P : String → Module → Prop} {found : Contents.Found}

theorem Every.empty : Every P .empty := nofun

theorem Every.insert (hknown : Every P known) {name : String} {m : Module} (hm : P name m) :
    Every P (known.insert name m) := by
  intro k n hget
  rw [NameMap.get?_insert] at hget
  split at hget
  · next hk =>
    subst hk
    cases hget
    exact hm
  · exact hknown k n hget

/-! ## One module -/

/-- The module of a directory, if all of it can be listed. -/
theorem ofDirectory?_eq_some {m : Module} :
    fs.isDirectory path = true ∧ Module.ofDirectory? fs path = some m ↔
      ∃ entries, fs.node? path = .ok (.directory entries) ∧ Module.fits path entries ∧
        m = ⟨.directory path, Module.scan fs path "" .root entries⟩ := by
  constructor
  · rintro ⟨hdir, hmodule⟩
    obtain ⟨entries, hnode⟩ := isDirectory_iff.1 hdir
    rw [Module.ofDirectory?, hnode] at hmodule
    change (if Module.fits path entries then _ else none) = _ at hmodule
    split at hmodule
    · next hfits =>
      cases hmodule
      exact ⟨entries, hnode, hfits, rfl⟩
    · cases hmodule
  · rintro ⟨entries, hnode, hfits, rfl⟩
    refine ⟨isDirectory_of_node? hnode, ?_⟩
    rw [Module.ofDirectory?, hnode]
    exact if_pos hfits

theorem origin_of_ofDirectory? {name : String} {m : Module} (hname : Path.fileName? path = some name)
    (hpath : fs.isDirectory path = true) (h : Module.ofDirectory? fs path = some m) :
    Origin fs name .exploded m := by
  obtain ⟨entries, hnode, hfits, rfl⟩ := ofDirectory?_eq_some.1 ⟨hpath, h⟩
  exact .directory hname hnode hfits

theorem origin_addDirectory (hknown : Every (Origin fs · .exploded) known)
    (hpath : fs.isDirectory path = true) :
    Every (Origin fs · .exploded) (Contents.addDirectory fs (known, skipped) path).1 := by
  unfold Contents.addDirectory
  split
  · exact hknown
  · next name hname =>
    split
    · next m hm => exact hknown.insert (origin_of_ofDirectory? hname hpath hm)
    · exact hknown

theorem origin_addArchive (hknown : Every (Origin fs · .jmods) known) (hpath : isJmod path = true) :
    Every (Origin fs · .jmods) (Contents.addArchive fs (known, skipped) path).1 := by
  unfold Contents.addArchive
  split
  · next name zip hname hzip => exact hknown.insert (.archive hname hpath hzip)
  · exact hknown

/-! ## All modules -/

theorem origin_of_ofDirectories (h : Contents.ofDirectories fs base = .ok found) :
    Every (Origin fs · found.contents.layout) found.contents.modules := by
  unfold Contents.ofDirectories at h
  cases hchildren : Contents.children fs base with
  | error e =>
    rw [hchildren] at h
    cases h
  | ok paths =>
    rw [hchildren] at h
    cases h
    refine List.foldlRecOn
      (motive := fun (r : NameMap Module × _) => Every (Origin fs · .exploded) r.1) _ _ .empty ?_
    exact fun r hknown path hpath => origin_addDirectory hknown (List.mem_filter.1 hpath).2

theorem origin_of_ofArchives (h : Contents.ofArchives fs base = .ok found) :
    Every (Origin fs · found.contents.layout) found.contents.modules := by
  unfold Contents.ofArchives at h
  cases hchildren : Contents.children fs base with
  | error e =>
    rw [hchildren] at h
    cases h
  | ok paths =>
    rw [hchildren] at h
    cases h
    refine List.foldlRecOn
      (motive := fun (r : NameMap Module × _) => Every (Origin fs · .jmods) r.1) _ _ .empty ?_
    exact fun r hknown path hpath =>
      origin_addArchive hknown (Bool.and_eq_true_iff.1 (List.mem_filter.1 hpath).2).2

/-- Each module that is found at a root has an origin in the layout that is found. -/
theorem origin_of_ofRoot {root : String} (h : Contents.ofRoot fs root = .ok found) :
    Every (Origin fs · found.contents.layout) found.contents.modules := by
  unfold Contents.ofRoot at h
  dsimp only at h
  split at h
  · cases h
  split at h
  · exact origin_of_ofArchives h
  split at h
  · exact origin_of_ofDirectories h
  cases hchildren : Contents.children fs root with
  | error e =>
    rw [hchildren] at h
    cases h
  | ok paths =>
    rw [hchildren] at h
    change (if _ then _ else if _ then _ else _) = _ at h
    split at h
    · exact origin_of_ofArchives h
    split at h
    · exact origin_of_ofDirectories h
    · cases h

/-- In an image that is up to date, modules still have the origins they had. -/
theorem origin_of_open {c : Contents} {u v : Use} (hcurrent : UpToDate fs u.image.root u.image)
    (hopen : openContents.run.on fs u = (.ok c, v)) : Every (Origin fs · c.layout) c.modules := by
  rw [on_openContents] at hopen
  split at hopen
  · next known hknown =>
    cases hopen
    obtain ⟨skipped, hfound⟩ := hcurrent.contents _ hknown
    exact origin_of_ofRoot hfound
  · split at hopen
    · next found hfound =>
      cases hopen
      exact origin_of_ofRoot hfound
    · cases hopen
    · cases hopen

end

end PlatformImage.Image
