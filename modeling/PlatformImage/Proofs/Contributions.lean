import PlatformImage.Proofs.Loading
import PlatformImage.Proofs.Parts
/-! What each module has to do with a scan.

A scan finds the descriptors of an image as a map has them, under the names of the modules
(`Contents.described`), so what it finds is in the order of these names and not of those that are
declared. Since maps that agree but under one name have the same values but for those under it,
one module adds one descriptor or none, whatever is in it, and the rest of what is found stays in
its place (`scan_contributions`). -/
namespace PlatformImage

namespace Image

open ClassFile (ModuleDescriptor)

/-- The content of the descriptor of a module, if it is there and can be read. -/
def Contents.descriptorContent? (fs : FileSystem) (c : Contents) (name : String) : Option Bytes :=
  (c.modules.get? name).bind fun m => (m.read fs descriptorFile).toOption.join

/-- The descriptors that can be read, by the names of the modules that they are found in. -/
def Contents.described (fs : FileSystem) (c : Contents) : NameMap ModuleDescriptor where
  entries := c.modules.entries.filterMap fun m => (m.2.descriptor? fs).map fun d => (m.1, d)
  ascending := by
    have hnames := List.pairwise_map.1 c.modules.ascending
    apply List.pairwise_map.2
    apply List.Pairwise.filterMap _ _ hnames
    intro m m' hlt e he e' he'
    obtain ⟨d, -, rfl⟩ := Option.map_eq_some_iff.1 he
    obtain ⟨d', -, rfl⟩ := Option.map_eq_some_iff.1 he'
    exact hlt

theorem Contents.values_described (fs : FileSystem) (c : Contents) :
    (c.described fs).values = c.descriptors fs := by
  unfold NameMap.values described descriptors
  rw [List.map_filterMap]
  simp [Function.comp_def]

theorem Contents.get?_described (fs : FileSystem) (c : Contents) (name : String) :
    (c.described fs).get? name = (c.modules.get? name).bind (·.descriptor? fs) := by
  apply Option.ext
  intro d
  rw [← NameMap.mem_entries_iff, Option.bind_eq_some_iff, described, List.mem_filterMap]
  constructor
  · rintro ⟨⟨k, m⟩, hm, hd⟩
    obtain ⟨d', hd', heq⟩ := Option.map_eq_some_iff.1 hd
    cases heq
    exact ⟨m, NameMap.mem_entries_iff.1 hm, hd'⟩
  · rintro ⟨m, hm, hd⟩
    exact ⟨(name, m), NameMap.mem_entries_iff.2 hm, by rw [hd]; rfl⟩

/-- What a descriptor says depends on its content only. -/
theorem Contents.get?_described_eq (fs : FileSystem) (c : Contents) (name : String) :
    (c.described fs).get? name =
      (c.descriptorContent? fs name).bind fun content => (ModuleDescriptor.parse content).toOption := by
  rw [get?_described, descriptorContent?]
  cases c.modules.get? name with
  | none => rfl
  | some m =>
    rw [Option.bind_some, Option.bind_some, Module.descriptor?]
    rcases m.read fs descriptorFile with e | _ | content <;> rfl

end Image

namespace Registry

open ClassFile (ModuleDescriptor)
open Image (descriptorFile openContents)

/-- **A scan is made module by module, unless a descriptor is fatal.** If the contents of an image
    open, and no module has a fatal descriptor, a scan ends without an error and finds, in ascending
    order of the names of the modules, the descriptors of just those that have one that can be read
    and is well formed. Of two such images whose other modules have the same descriptors, what is
    found is the same but for what the one module adds, however broken it is in either. Where a
    module has a fatal descriptor, the scan does not end. If the contents do not open, nothing is
    found and the error is answered; so an error never comes with descriptors. -/
theorem scan_contributions (fs : FileSystem) (u : Image.Use) :
    (∀ c v, openContents.run.on fs u = (.ok c, v) → c.Harmless fs →
      ∃ found : NameMap ModuleDescriptor, (scan.run.on fs u).1 = .ok (found.values, none) ∧
        (∀ name d, found.get? name = some d ↔ ∃ m content, c.modules.get? name = some m ∧
          m.read fs descriptorFile = .ok (some content) ∧ ModuleDescriptor.parse content = .ok d) ∧
        ∀ fs' u' c' v' name, openContents.run.on fs' u' = (.ok c', v') → c'.Harmless fs' →
          (∀ other, other ≠ name →
            c'.descriptorContent? fs' other = c.descriptorContent? fs other) →
          ∃ before after,
            (scan.run.on fs u).1 = .ok (before ++ (found.get? name).toList ++ after, none) ∧
            (scan.run.on fs' u').1 = .ok
              (before ++ ((c'.modules.get? name).bind (·.descriptor? fs')).toList ++ after, none)) ∧
    (∀ c v, openContents.run.on fs u = (.ok c, v) → ¬c.Harmless fs →
      ∃ e, (scan.run.on fs u).1 = .error e ∧ e.isFatal) ∧
    (∀ e v, openContents.run.on fs u = (.error e, v) →
      (scan.run.on fs u).1 = .ok ([], some e)) ∧
    ∀ found e, (scan.run.on fs u).1 = .ok (found, some e) → found = [] := by
  have hscanned {fs : FileSystem} {u v : Image.Use} {c : Image.Contents}
      (hopen : openContents.run.on fs u = (.ok c, v)) (hharmless : c.Harmless fs) :
      (scan.run.on fs u).1 = .ok ((c.described fs).values, none) := by
    obtain ⟨w, hscan, -⟩ := on_scan hopen
    rw [hscan, hharmless.scanned, Image.Contents.values_described]
    rfl
  refine ⟨?_, ?_, ?_, ?_⟩
  · intro c v hopen hharmless
    refine ⟨c.described fs, hscanned hopen hharmless, ?_, ?_⟩
    · intro name d
      simp only [Image.Contents.get?_described, Option.bind_eq_some_iff,
        Image.Module.descriptor?_eq_some, exists_and_left]
    · intro fs' u' c' v' name hopen' hharmless' hothers
      have hagree : ∀ other, other ≠ name →
          (c.described fs).get? other = (c'.described fs').get? other := by
        intro other hne
        rw [Image.Contents.get?_described_eq, Image.Contents.get?_described_eq, hothers other hne]
      obtain ⟨before, after, hfound, hfound'⟩ := NameMap.values_of_agree hagree
      refine ⟨before, after, ?_, ?_⟩
      · rw [hscanned hopen hharmless, hfound]
      · rw [hscanned hopen' hharmless', hfound', Image.Contents.get?_described]
  · intro c v hopen hnot
    obtain ⟨w, hscan, -⟩ := on_scan hopen
    rcases c.scanned_eq fs with ⟨hharmless, -⟩ | ⟨-, e, hend⟩
    · exact absurd hharmless hnot
    · rw [hscan, hend]
      exact ⟨e, rfl, Image.Contents.isFatal_of_scanned hend⟩
  · intro e v hopen
    rw [on_scan_of_error hopen]
  · intro found e hfailed
    rcases hopen : openContents.run.on fs u with ⟨outcome, v⟩
    cases outcome with
    | ok c =>
      obtain ⟨w, hscan, -⟩ := on_scan hopen
      rw [hscan] at hfailed
      cases hend : c.scanned fs <;> rw [hend] at hfailed <;> cases hfailed
    | error e =>
      rw [on_scan_of_error hopen] at hfailed
      cases hfailed
      rfl

/-- Where the one module of an image is gone that is open, what it added is gone from what a scan
    finds. -/
theorem scan_contributions_moved : ∃ d before after,
    (scan.run.on Session.twoPlaces ⟨.new "/i", []⟩).1 = .ok (before ++ [d] ++ after, none) ∧
    (scan.run.on Session.onePlace ⟨Session.loadedImage, []⟩).1 = .ok (before ++ after, none) := by
  have hopen := Image.on_openContents_new Session.ofRoot_twoPlaces
  have hopen' : openContents.run.on Session.onePlace ⟨Session.loadedImage, []⟩ = (.ok _, _) :=
    Image.on_openContents_of_some rfl
  have hothers : ∀ other, other ≠ "m" →
      Session.olderContents.descriptorContent? Session.onePlace other =
        Session.olderContents.descriptorContent? Session.twoPlaces other := by
    intro other hne
    have hnone : Session.olderContents.modules.get? other = none := by
      rw [Session.olderContents, NameMap.get?_insert, if_neg hne, NameMap.get?_empty]
    rw [Image.Contents.descriptorContent?, Image.Contents.descriptorContent?, hnone]
    rfl
  obtain ⟨hfirst, -⟩ := scan_contributions Session.twoPlaces ⟨.new "/i", []⟩
  obtain ⟨found, -, hfound, happly⟩ := hfirst _ _ hopen (Session.harmless_olderContents _)
  obtain ⟨before, after, hscan, hscan'⟩ :=
    happly _ _ _ _ "m" hopen' (Session.harmless_olderContents _) hothers
  obtain ⟨key, m, content, d, hget, hread, hparse, -⟩ :=
    Session.declares_olderContents.2 rfl
  obtain rfl : key = "m" := by
    by_contra hne
    rw [Session.olderContents, NameMap.get?_insert, if_neg hne, NameMap.get?_empty] at hget
    cases hget
  have hd : found.get? "m" = some d := (hfound "m" d).2 ⟨m, content, hget, hread, hparse⟩
  have hgone : (Session.olderContents.modules.get? "m").bind (·.descriptor? Session.onePlace) =
      none := by
    rw [hget, Option.bind_some, Option.eq_none_iff_forall_ne_some]
    intro e he
    obtain ⟨content', hread', hparse'⟩ := Image.Module.descriptor?_eq_some.1 he
    exact Session.not_declares_olderContents e.name ⟨"m", m, content', e, hget, hread', hparse', rfl⟩
  rw [hd] at hscan
  rw [hgone, Option.toList_none, List.append_nil] at hscan'
  exact ⟨d, before, after, hscan, hscan'⟩

/-! ## An archive that there is no room for -/

/-- The bytes of an archive with an empty descriptor, for which its directory states as many bytes as
    a number of eight bytes can. -/
def vastBytes : Bytes :=
  let number := Archive.ZipWriter.littleEndian
  let item : Archive.ZipWriter.Item := ⟨"classes/module-info.class", []⟩
  let name := Text.Utf8.encode item.name
  let extra := number 2 1 ++ number 2 8 ++ number 8 0xFFFFFFFFFFFFFFFF
  let central := number 4 0x02014b50 ++ number 2 45 ++ number 2 45 ++ number 4 0 ++
    number 4 0x00210000 ++ number 4 0 ++ number 4 0 ++ number 4 0xFFFFFFFF ++
    number 2 name.length ++ number 2 extra.length ++ number 8 0 ++ number 2 0 ++ number 4 0 ++
    name ++ extra
  item.body ++ central ++ number 4 0x06054b50 ++ number 4 0 ++ number 2 1 ++ number 2 1 ++
    number 4 central.length ++ number 4 item.body.length ++ number 2 0

/-- The entry of the descriptor. -/
def vastEntry : Archive.Entry :=
  ⟨"classes/module-info.class", false, false, .stored, 0, 0, 0xFFFFFFFFFFFFFFFF, 0⟩

theorem directory_vastBytes : Archive.Entry.directory vastBytes = .ok [vastEntry] := by
  decide +kernel

theorem goTo_vastEntry : (vastEntry.goTo vastBytes.toArray).toOption.isSome := by
  decide +kernel

theorem isFatal_vast {file : OpenFile} (hheld : (Image.oneArchive vastBytes).held file = vastBytes)
    (path : String) :
    (Image.Module.ofArchive path ⟨file, [vastEntry]⟩).IsFatal (Image.oneArchive vastBytes) := by
  have hthere := goTo_vastEntry
  cases hgoTo : vastEntry.goTo vastBytes.toArray with
  | ok source => exact ⟨path, _, vastEntry, source, rfl, rfl, hheld.symm ▸ hgoTo, by decide⟩
  | error e =>
    rw [hgoTo] at hthere
    cases hthere

/-- **A scan of such an archive does not end.** The image opens with its one module. -/
theorem scan_overflows_vast : ∃ c v,
    openContents.run.on (Image.oneArchive vastBytes) ⟨.new "/i", []⟩ = (.ok c, v) ∧
    c.modules.keys = ["m"] ∧
    (scan.run.on (Image.oneArchive vastBytes) ⟨.new "/i", []⟩).1 =
      .error (.fatal "/i/jmods/m.jmod") := by
  obtain ⟨file, hheld, -, hfound⟩ := Image.opens_oneArchive directory_vastBytes
  have hopen := Image.on_openContents_new hfound
  refine ⟨_, _, hopen, rfl, ?_⟩
  obtain ⟨path, zip, hsource, hread⟩ :=
    Image.Module.read_of_isFatal (isFatal_vast hheld "/i/jmods/m.jmod")
  cases hsource
  have hend := Image.Module.fatal?_eq_some.2 ⟨hread, rfl⟩
  have hfirst : (Image.oneModule ⟨file, [vastEntry]⟩).scanned (Image.oneArchive vastBytes) =
      .error (.fatal "/i/jmods/m.jmod") := by
    have hentries : (Image.oneModule ⟨file, [vastEntry]⟩).modules.entries =
        [("m", .ofArchive "/i/jmods/m.jmod" ⟨file, [vastEntry]⟩)] := rfl
    rw [Image.Contents.scanned, hentries, List.findSome?_cons, hend]
  obtain ⟨w, hscan, -⟩ := on_scan hopen
  rw [hscan, hfirst]
  rfl

end Registry

end PlatformImage
