import PlatformImage.ClassFile.ModuleDescriptor
import PlatformImage.Proofs.ClassFile.Parse
/-! The class files of modules: the format of the `Module` attribute and of what stands
around it, and the descriptor that it holds. Reading undoes writing: the descriptor is had
back from any such file, with `.` for `/` in the names of packages and types
(`parse_encode`), and only from such files (`reads_moduleDescriptor`).

A reader of the attribute's body is put together from readers of its five tables, each of
which `Reads` just what its entries are put into; what is in front of the attribute is
read like any class file. -/
namespace PlatformImage.ClassFile

open Reader

/-! ## The format -/

/-- A requirement, by the slots of the module and of its version. -/
structure RequirementValue where
  module : UInt16
  flags : UInt16
  version : UInt16

def RequirementValue.encode (r : RequirementValue) : Bytes :=
  putU16 r.module ++ putU16 r.flags ++ putU16 r.version

/-- A package exported or opened, by the slots of the package and of its targets. -/
structure ExportValue where
  package : UInt16
  flags : UInt16
  targets : Counted UInt16

def ExportValue.encode (e : ExportValue) : Bytes :=
  putU16 e.package ++ putU16 e.flags ++ e.targets.encode putU16

/-- A service and the types that implement it, by their slots. -/
structure ProvisionValue where
  service : UInt16
  implementations : Counted UInt16

def ProvisionValue.encode (s : ProvisionValue) : Bytes :=
  putU16 s.service ++ s.implementations.encode putU16

/-- What stands in a `Module` attribute. -/
structure ModuleValue where
  name : UInt16
  flags : UInt16
  version : UInt16
  requires : Counted RequirementValue
  exports : Counted ExportValue
  opens : Counted ExportValue
  uses : Counted UInt16
  provides : Counted ProvisionValue

def ModuleValue.encode (m : ModuleValue) : Bytes :=
  putU16 m.name ++ putU16 m.flags ++ putU16 m.version ++
  m.requires.encode RequirementValue.encode ++ m.exports.encode ExportValue.encode ++
  m.opens.encode ExportValue.encode ++ m.uses.encode putU16 ++
  m.provides.encode ProvisionValue.encode

/-- The class file of a module up to the end of its `Module` attribute, whose body may
    have a surplus. The attributes in front of it and itself are among those counted. -/
structure ModuleFile where
  minor : UInt16
  major : UInt16
  pool : Pool
  flags : UInt16
  isModule : flags &&& ModuleDescriptor.moduleFlag ≠ 0
  thisClass : UInt16
  superClass : UInt16
  interfaces : Counted UInt16
  fields : Counted MemberValue
  methods : Counted MemberValue
  attributeCount : UInt16
  before : List Attribute
  counted : before.length < attributeCount.toNat
  attributeName : UInt16
  module : ModuleValue
  surplus : Bytes
  fits : (module.encode ++ surplus).length < 4294967296

/-- The `Module` attribute. -/
def ModuleFile.moduleAttribute (v : ModuleFile) : Attribute :=
  ⟨v.attributeName, v.module.encode ++ v.surplus, v.fits⟩

/-- What stands behind the flags. -/
def ModuleFile.encodeRest (v : ModuleFile) : Bytes :=
  putU16 v.thisClass ++ putU16 v.superClass ++ v.interfaces.encode putU16 ++
  v.fields.encode MemberValue.encode ++ v.methods.encode MemberValue.encode ++
  putU16 v.attributeCount ++ v.before.flatMap Attribute.encode ++ v.moduleAttribute.encode

def ModuleFile.encode (v : ModuleFile) : Bytes :=
  putU32 magic ++ putU16 v.minor ++ putU16 v.major ++ v.pool.encode ++ putU16 v.flags ++
  v.encodeRest

/-! ## References -/

namespace Pool

/-- A slot of a module constant, by the name of the module. -/
def IsModule (p : Pool) (index : UInt16) (name : String) : Prop :=
  ∃ nameIndex, Holds p.items index.toNat (.module nameIndex) ∧ p.IsText nameIndex name

/-- A slot of a package constant, or of a class constant in its place, by the name of the
    package. -/
def IsPackage (p : Pool) (index : UInt16) (name : String) : Prop :=
  ∃ nameIndex, (Holds p.items index.toNat (.package nameIndex) ∨
    Holds p.items index.toNat (.class nameIndex)) ∧ p.IsText nameIndex name

/-- A slot of a text, or slot 0 where there is none. -/
def IsText? (p : Pool) (index : UInt16) : Option String → Prop
  | none => index = 0
  | some text => p.IsText index text

end Pool

/-- The requirement that is told by its slots. -/
structure RequirementValue.Tells (p : Pool) (v : RequirementValue) (r : Requirement) : Prop where
  module : p.IsModule v.module r.module
  flags : r.flags = v.flags
  version : p.IsText? v.version r.version

/-- The package with its targets that is told by slots, its name in internal form. -/
structure ExportValue.Tells (p : Pool) (v : ExportValue) (e : PackageExport) : Prop where
  package : p.IsPackage v.package e.package
  flags : e.flags = v.flags
  targets : List.Forall₂ p.IsModule v.targets.entries e.targets

/-- The provision that is told by slots, its names in internal form. -/
structure ProvisionValue.Tells (p : Pool) (v : ProvisionValue) (s : Provision) : Prop where
  service : p.IsClass v.service s.service
  implementations : List.Forall₂ p.IsClass v.implementations.entries s.implementations

/-- The descriptor that is told by slots, with all names as they stand in the pool. -/
structure ModuleValue.Tells (p : Pool) (v : ModuleValue) (d : ModuleDescriptor) : Prop where
  name : p.IsModule v.name d.name
  flags : d.flags = v.flags
  version : p.IsText? v.version d.version
  requires : List.Forall₂ (RequirementValue.Tells p) v.requires.entries d.requires
  exports : List.Forall₂ (ExportValue.Tells p) v.exports.entries d.exports
  opens : List.Forall₂ (ExportValue.Tells p) v.opens.entries d.opens
  uses : List.Forall₂ p.IsClass v.uses.entries d.uses
  provides : List.Forall₂ (ProvisionValue.Tells p) v.provides.entries d.provides

/-- A class file that holds a descriptor: the members have names and descriptors, and no
    attribute in front of the `Module` attribute is named like it. -/
structure ModuleFile.Holds (v : ModuleFile) (d : ModuleDescriptor) : Prop where
  fields : ∀ m ∈ v.fields.entries, ∃ named, m.Describes v.pool named
  methods : ∀ m ∈ v.methods.entries, ∃ named, m.Describes v.pool named
  before : ∀ a ∈ v.before, ∃ name, v.pool.IsText a.name name ∧ name ≠ "Module"
  attributeName : v.pool.IsText v.attributeName "Module"
  module : v.module.Tells v.pool d

/-! ## Dotted form -/

def PackageExport.inDots (e : PackageExport) : PackageExport :=
  { e with package := Text.dotted e.package }

def Provision.inDots (s : Provision) : Provision :=
  ⟨Text.dotted s.service, s.implementations.map Text.dotted⟩

/-- A descriptor with `.` for `/` in the names of packages and types; the names of modules
    stay as they are. -/
def ModuleDescriptor.inDots (d : ModuleDescriptor) : ModuleDescriptor :=
  { d with
    exports := d.exports.map PackageExport.inDots
    opens := d.opens.map PackageExport.inDots
    uses := d.uses.map Text.dotted
    provides := d.provides.map Provision.inDots }

/-! ## Looking up names -/

section
variable {p : Pool} {index : UInt16} {name : String}

theorem moduleName_ofItems :
    (ConstantPool.ofItems p.items).moduleName index = .ok name ↔ p.IsModule index name := by
  rw [ConstantPool.moduleName, ConstantPool.nameVia_ofItems rfl]
  constructor
  · rintro ⟨item, nameIndex, h, hname, htext⟩
    cases item with
    | module n => exact ⟨nameIndex, Option.some.inj hname ▸ h, htext⟩
    | _ => cases hname
  · rintro ⟨nameIndex, h, htext⟩
    exact ⟨_, nameIndex, h, rfl, htext⟩

theorem packageName_ofItems :
    (ConstantPool.ofItems p.items).packageName index = .ok name ↔ p.IsPackage index name := by
  rw [ConstantPool.packageName, ConstantPool.nameVia_ofItems rfl]
  constructor
  · rintro ⟨item, nameIndex, h, hname, htext⟩
    cases item with
    | package n => exact ⟨nameIndex, .inl (Option.some.inj hname ▸ h), htext⟩
    | «class» n => exact ⟨nameIndex, .inr (Option.some.inj hname ▸ h), htext⟩
    | _ => cases hname
  · rintro ⟨nameIndex, h | h, htext⟩
    · exact ⟨_, nameIndex, h, rfl, htext⟩
    · exact ⟨_, nameIndex, h, rfl, htext⟩

theorem text?_ofItems {text : Option String} :
    (ConstantPool.ofItems p.items).text? index = .ok text ↔ p.IsText? index text := by
  unfold ConstantPool.text?
  by_cases h : index = 0
  · -- No text begins in slot 0.
    have hnone {s : String} : ¬p.IsText index s := fun ⟨_, hs⟩ => by
      have := hs.slot_pos
      rw [h] at this
      exact Nat.lt_irrefl 0 this
    rw [if_pos h]
    cases text with
    | none => exact ⟨fun _ => h, fun _ => rfl⟩
    | some s => exact ⟨nofun, fun hs => absurd hs hnone⟩
  · rw [if_neg h]
    cases text with
    | none =>
      refine ⟨fun hs => ?_, fun hs => absurd hs h⟩
      cases htext : (ConstantPool.ofItems p.items).text index <;> rw [htext] at hs <;> cases hs
    | some s =>
      rw [Pool.IsText?, ← ConstantPool.text_ofItems]
      cases (ConstantPool.ofItems p.items).text index with
      | error e => exact ⟨nofun, nofun⟩
      | ok t => exact ⟨fun hs => by cases hs; rfl, fun hs => by cases hs; rfl⟩

end

/-! ## The tables of the attribute -/

namespace Reader

variable {p : Pool}

/-- Lists that agree up to a map of what is found agree once all is mapped. -/
theorem forall₂_exists_map {α β γ : Type} {R : α → β → Prop} {f : β → γ} {as : List α}
    {cs : List γ} : List.Forall₂ (fun a c => ∃ b, R a b ∧ c = f b) as cs ↔
      ∃ bs, List.Forall₂ R as bs ∧ cs = bs.map f := by
  constructor
  · intro h
    induction h with
    | nil => exact ⟨[], .nil, rfl⟩
    | cons hab _ ih =>
      obtain ⟨b, hb, rfl⟩ := hab
      obtain ⟨bs, hbs, rfl⟩ := ih
      exact ⟨b :: bs, .cons hb hbs, rfl⟩
  · rintro ⟨bs, h, rfl⟩
    exact List.forall₂_map_right_iff.2 (h.imp fun _ b hb => ⟨b, hb, rfl⟩)

theorem reads_moduleRef : Reads (moduleRef (.ofItems p.items)) putU16 p.IsModule := by
  intro bs name rest
  simp only [moduleRef, run_bind_eq_ok, run_u16_eq_ok, run_lift_eq_ok, moduleName_ofItems]
  constructor
  · rintro ⟨index, _, rfl, hname, rfl⟩
    exact ⟨index, rfl, hname⟩
  · rintro ⟨index, rfl, hname⟩
    exact ⟨index, rest, rfl, hname, rfl⟩

theorem reads_dottedClassRef : Reads (dottedClassRef (.ofItems p.items)) putU16
    fun index dotted => ∃ name, p.IsClass index name ∧ dotted = Text.dotted name := by
  intro bs dotted rest
  simp only [dottedClassRef, run_map_eq_ok, reads_classRef _ _ _]
  constructor
  · rintro ⟨name, ⟨index, rfl, hname⟩, rfl⟩
    exact ⟨index, rfl, name, hname, rfl⟩
  · rintro ⟨index, rfl, name, hname, rfl⟩
    exact ⟨name, ⟨index, rfl, hname⟩, rfl⟩

theorem reads_requirement : Reads (requirement (.ofItems p.items)) RequirementValue.encode
    (RequirementValue.Tells p) := by
  intro bs r rest
  simp only [requirement, run_bind_eq_ok, run_u16_eq_ok, run_lift_eq_ok, run_pure_eq_ok,
    reads_moduleRef _ _ _, text?_ofItems]
  constructor
  · rintro ⟨m, _, ⟨index, rfl, hm⟩, flags, _, rfl, version, _, rfl, text, _, ⟨htext, rfl⟩, rfl, rfl⟩
    refine ⟨⟨index, flags, version⟩, ?_, hm, rfl, htext⟩
    simp only [RequirementValue.encode, List.append_assoc]
  · rintro ⟨v, rfl, hv⟩
    refine ⟨r.module, _, ⟨v.module, ?_, hv.module⟩, v.flags, _, rfl, v.version, _, rfl, r.version,
      rest, ⟨hv.version, rfl⟩, ?_, rfl⟩
    · simp only [RequirementValue.encode, List.append_assoc]
    · rw [← hv.flags]

theorem reads_packageExport : Reads (packageExport (.ofItems p.items)) ExportValue.encode
    fun v e => ∃ told, v.Tells p told ∧ e = told.inDots := by
  intro bs e rest
  simp only [packageExport, run_bind_eq_ok, run_u16_eq_ok, run_lift_eq_ok, run_pure_eq_ok,
    packageName_ofItems, reads_table reads_moduleRef _ _ _]
  constructor
  · rintro ⟨index, _, rfl, package, _, ⟨hpackage, rfl⟩, flags, _, rfl, targets, _,
      ⟨vs, rfl, hvs⟩, rfl, rfl⟩
    refine ⟨⟨index, flags, vs⟩, ?_, ⟨package, flags, targets⟩, ⟨hpackage, rfl, hvs⟩, rfl⟩
    simp only [ExportValue.encode, List.append_assoc]
  · rintro ⟨v, rfl, told, hv, rfl⟩
    refine ⟨v.package, _, ?_, told.package, _, ⟨hv.package, rfl⟩, v.flags, _, rfl, told.targets,
      rest, ⟨v.targets, rfl, hv.targets⟩, ?_, rfl⟩
    · simp only [ExportValue.encode, List.append_assoc]
    · rw [← hv.flags]
      rfl

theorem reads_provision : Reads (provision (.ofItems p.items)) ProvisionValue.encode
    fun v s => ∃ told, v.Tells p told ∧ s = told.inDots := by
  intro bs s rest
  simp only [provision, run_bind_eq_ok, run_pure_eq_ok, reads_dottedClassRef _ _ _,
    reads_table reads_dottedClassRef _ _ _, forall₂_exists_map]
  constructor
  · rintro ⟨_, _, ⟨index, rfl, service, hservice, rfl⟩, _, _, ⟨vs, rfl, names, hvs, rfl⟩, rfl, rfl⟩
    refine ⟨⟨index, vs⟩, ?_, ⟨service, names⟩, ⟨hservice, hvs⟩, rfl⟩
    simp only [ProvisionValue.encode, List.append_assoc]
  · rintro ⟨v, rfl, told, hv, rfl⟩
    refine ⟨_, _, ⟨v.service, ?_, told.service, hv.service, rfl⟩, _, rest,
      ⟨v.implementations, rfl, told.implementations, hv.implementations, rfl⟩, rfl, rfl⟩
    simp only [ProvisionValue.encode, List.append_assoc]

theorem reads_moduleAttribute : Reads (moduleAttribute (.ofItems p.items)) ModuleValue.encode
    fun v d => ∃ told, v.Tells p told ∧ d = told.inDots := by
  intro bs d rest
  simp only [moduleAttribute, run_bind_eq_ok, run_u16_eq_ok, run_lift_eq_ok, run_pure_eq_ok,
    reads_moduleRef _ _ _, text?_ofItems, reads_table reads_requirement _ _ _,
    reads_table reads_packageExport _ _ _, reads_table reads_dottedClassRef _ _ _,
    reads_table reads_provision _ _ _, forall₂_exists_map]
  constructor
  · rintro ⟨name, _, ⟨nameIndex, rfl, hname⟩, flags, _, rfl, version, _, rfl, text, _, ⟨htext, rfl⟩,
      requires, _, ⟨rs, rfl, hrs⟩, _, _, ⟨es, rfl, exports, hes, rfl⟩, _, _,
      ⟨os, rfl, opens, hos, rfl⟩, _, _, ⟨us, rfl, uses, hus, rfl⟩, _, _,
      ⟨ss, rfl, provides, hss, rfl⟩, rfl, rfl⟩
    refine ⟨⟨nameIndex, flags, version, rs, es, os, us, ss⟩, ?_,
      ⟨name, flags, text, requires, exports, opens, uses, provides⟩,
      ⟨hname, rfl, htext, hrs, hes, hos, hus, hss⟩, rfl⟩
    simp only [ModuleValue.encode, List.append_assoc]
  · rintro ⟨v, rfl, told, hv, rfl⟩
    refine ⟨told.name, _, ⟨v.name, ?_, hv.name⟩, v.flags, _, rfl, v.version, _, rfl, told.version, _,
      ⟨hv.version, rfl⟩, told.requires, _, ⟨v.requires, rfl, hv.requires⟩,
      _, _, ⟨v.exports, rfl, told.exports, hv.exports, rfl⟩,
      _, _, ⟨v.opens, rfl, told.opens, hv.opens, rfl⟩,
      _, _, ⟨v.uses, rfl, told.uses, hv.uses, rfl⟩,
      _, rest, ⟨v.provides, rfl, told.provides, hv.provides, rfl⟩, ?_, rfl⟩
    · simp only [ModuleValue.encode, List.append_assoc]
    · rw [← hv.flags]
      rfl

/-! ## The class file around it -/

theorem run_attribute_bind {α : Type} {bs rest : Bytes} {r : α} {f : UInt16 → Bytes → Reader α} :
    (do
      let index ← u16
      let length ← u32
      let body ← bytes length.toNat
      f index body : Reader α).run bs = .ok (r, rest) ↔
      ∃ (a : Attribute) (mid : Bytes), bs = a.encode ++ mid ∧
        (f a.name a.body).run mid = .ok (r, rest) := by
  simp only [run_bind_eq_ok, run_u16_eq_ok, run_u32_eq_ok, reads_bytes _ _ _]
  constructor
  · rintro ⟨name, _, rfl, length, _, rfl, body, mid, ⟨_, rfl, rfl, hlen⟩, h⟩
    refine ⟨⟨name, _, hlen ▸ length.toNat_lt⟩, mid, ?_, h⟩
    simp only [Attribute.encode, hlen, UInt32.ofNat_toNat, List.append_assoc, id]
  · rintro ⟨a, mid, rfl, h⟩
    have hlen : (UInt32.ofNat a.body.length).toNat = a.body.length := by
      have := a.fits
      rw [UInt32.toNat_ofNat']
      omega
    refine ⟨a.name, _, ?_, UInt32.ofNat a.body.length, a.body ++ mid, rfl, a.body, mid,
      ⟨a.body, rfl, rfl, hlen.symm⟩, h⟩
    simp only [Attribute.encode, List.append_assoc]

/-- The attributes up to the first one of that name, and its body. -/
theorem reads_findModuleAttribute (count : Nat) :
    Reads (findModuleAttribute (.ofItems p.items) count)
      (fun v : List Attribute × Attribute => v.1.flatMap Attribute.encode ++ v.2.encode)
      fun v body => v.1.length < count ∧
        (∀ a ∈ v.1, ∃ name, p.IsText a.name name ∧ name ≠ "Module") ∧
        p.IsText v.2.name "Module" ∧ v.2.body = body := by
  induction count with
  | zero =>
    intro bs body rest
    rw [findModuleAttribute]
    refine ⟨fun h => absurd h run_throw_ne_ok, ?_⟩
    rintro ⟨_, _, h, _⟩
    cases h
  | succ count ih =>
    intro bs body rest
    rw [findModuleAttribute, run_attribute_bind]
    simp only [run_bind_eq_ok, run_lift_eq_ok, ConstantPool.text_ofItems]
    constructor
    · rintro ⟨a, _, rfl, name, _, ⟨hname, rfl⟩, h⟩
      split at h
      · next hmodule =>
        obtain ⟨rfl, rfl⟩ := run_pure_eq_ok.1 h
        exact ⟨([], a), rfl, Nat.succ_pos count, nofun, hmodule ▸ hname, rfl⟩
      · next hother =>
        obtain ⟨⟨before, found⟩, rfl, hcount, hbefore, hfound, rfl⟩ := (ih _ _ _).1 h
        refine ⟨(a :: before, found), ?_, Nat.succ_lt_succ hcount, ?_, hfound, rfl⟩
        · simp only [List.flatMap_cons, List.append_assoc]
        · exact List.forall_mem_cons.2 ⟨⟨name, hname, hother⟩, hbefore⟩
    · rintro ⟨⟨before, found⟩, rfl, hcount, hbefore, hfound, rfl⟩
      cases before with
      | nil =>
        refine ⟨found, rest, rfl, "Module", rest, ⟨hfound, rfl⟩, ?_⟩
        rw [if_pos rfl]
        exact run_pure_eq_ok.2 ⟨rfl, rfl⟩
      | cons a before =>
        obtain ⟨⟨name, hname, hother⟩, hbefore⟩ := List.forall_mem_cons.1 hbefore
        refine ⟨a, before.flatMap Attribute.encode ++ found.encode ++ rest, ?_, name, _,
          ⟨hname, rfl⟩, ?_⟩
        · simp only [List.flatMap_cons, List.append_assoc]
        · rw [if_neg hother]
          exact (ih _ _ _).2
            ⟨(before, found), rfl, Nat.lt_of_succ_lt_succ hcount, hbefore, hfound, rfl⟩

/-- There is a list of what is found if there is something to be found everywhere. -/
theorem exists_forall₂ {α β : Type} {R : α → β → Prop} {as : List α} :
    (∃ bs, List.Forall₂ R as bs) ↔ ∀ a ∈ as, ∃ b, R a b := by
  induction as with
  | nil => exact ⟨nofun, fun _ => ⟨[], .nil⟩⟩
  | cons a as ih =>
    rw [List.forall_mem_cons, ← ih]
    constructor
    · rintro ⟨_, _ | ⟨hab, h⟩⟩
      exact ⟨⟨_, hab⟩, _, h⟩
    · rintro ⟨⟨b, hab⟩, bs, h⟩
      exact ⟨b :: bs, .cons hab h⟩

/-- References that are stepped over: twice as many bytes as there are of them. -/
theorem reads_skipReferences (n : Nat) :
    Reads (skip (n * 2)) (List.flatMap putU16) fun vs _ => vs.length = n := by
  intro bs u rest
  rw [run_skip_eq_ok]
  constructor
  · rintro ⟨body, rfl, hlen⟩
    induction n generalizing body with
    | zero =>
      cases List.length_eq_zero_iff.1 hlen
      exact ⟨[], rfl, rfl⟩
    | succ n ih =>
      match body, hlen with
      | [_], hlen =>
        rw [List.length_singleton] at hlen
        omega
      | hi :: lo :: body, hlen =>
        simp only [List.length_cons] at hlen
        obtain ⟨vs, hvs, rfl⟩ := ih body (by omega)
        refine ⟨pair hi lo :: vs, ?_, rfl⟩
        rw [List.flatMap_cons, putU16_pair, List.append_assoc, ← hvs]
        rfl
  · rintro ⟨vs, rfl, rfl⟩
    refine ⟨vs.flatMap putU16, rfl, ?_⟩
    simp [List.length_flatMap, putU16]

theorem reads_moduleDescriptor : Reads moduleDescriptor ModuleFile.encode
    fun v d => ∃ told, v.Holds told ∧ d = told.inDots := by
  intro bs d rest
  simp only [moduleDescriptor, run_bind_eq_ok, run_header_eq_ok, run_u16_eq_ok,
    ConstantPool.reads_pool _ _ _]
  constructor
  · rintro ⟨version, _, rfl, _, _, ⟨p, rfl, rfl⟩, flags, _, rfl, h⟩
    split at h
    · exact absurd h run_throw_ne_ok
    · next hflag =>
      simp only [run_bind_eq_ok, run_u16_eq_ok, reads_skipReferences _ _ _ _, reads_members _ _ _,
        reads_findModuleAttribute _ _ _ _, run_lift_eq_ok, run_pure_eq_ok] at h
      obtain ⟨thisClass, _, rfl, superClass, _, rfl, count, _, rfl, _, _, ⟨is, rfl, his⟩,
        fs, _, ⟨fields, rfl, hfields⟩, ms, _, ⟨methods, rfl, hmethods⟩, attributeCount, _, rfl,
        _, _, ⟨⟨before, found⟩, rfl, hcount, hbefore, hname, rfl⟩, ⟨d, surplus⟩, _, ⟨hbody, rfl⟩,
        rfl, rfl⟩ := h
      obtain ⟨m, hm, told, htold, rfl⟩ := (reads_moduleAttribute _ _ _).1 hbody
      obtain ⟨attributeName, body, fits⟩ := found
      obtain rfl : body = m.encode ++ surplus := hm
      have hinterfaces : UInt16.ofNat is.length = count := by rw [his, UInt16.ofNat_toNat]
      refine ⟨⟨version.minor, version.major, p, flags, hflag, thisClass, superClass,
        ⟨is, his ▸ count.toNat_lt⟩, fields, methods, attributeCount, before, hcount, attributeName,
        m, surplus, fits⟩, ?_, told, ⟨exists_forall₂.1 ⟨fs, hfields⟩, exists_forall₂.1 ⟨ms, hmethods⟩,
        hbefore, hname, htold⟩, rfl⟩
      simp only [ModuleFile.encode, ModuleFile.encodeRest, ModuleFile.moduleAttribute,
        Counted.encode, hinterfaces, List.append_assoc]
  · rintro ⟨v, rfl, told, hv, rfl⟩
    obtain ⟨fs, hfields⟩ := exists_forall₂.2 hv.fields
    obtain ⟨ms, hmethods⟩ := exists_forall₂.2 hv.methods
    refine ⟨⟨v.minor, v.major⟩, _, ?_, _, _, ⟨v.pool, rfl, rfl⟩, v.flags, v.encodeRest ++ rest, rfl, ?_⟩
    · simp only [ModuleFile.encode, List.append_assoc]
    · rw [if_neg v.isModule]
      simp only [run_bind_eq_ok, run_u16_eq_ok, reads_skipReferences _ _ _ _, reads_members _ _ _,
        reads_findModuleAttribute _ _ _ _, run_lift_eq_ok, run_pure_eq_ok]
      refine ⟨v.thisClass, _, ?_, v.superClass, _, rfl, UInt16.ofNat v.interfaces.entries.length, _,
        rfl, (), _, ⟨v.interfaces.entries, rfl, (toNat_ofNat_length v.interfaces.fits).symm⟩,
        fs, _, ⟨v.fields, rfl, hfields⟩, ms, _, ⟨v.methods, rfl, hmethods⟩, v.attributeCount, _, rfl,
        _, rest, ⟨(v.before, v.moduleAttribute), rfl, v.counted, hv.before, hv.attributeName, rfl⟩,
        (told.inDots, v.surplus), rest,
        ⟨(reads_moduleAttribute _ _ _).2 ⟨v.module, rfl, told, hv.module, rfl⟩, rfl⟩, rfl, rfl⟩
      simp only [ModuleFile.encodeRest, Counted.encode, List.append_assoc]

end Reader

/-- **Reading undoes writing.** Put into bytes, a class file that holds a descriptor is
    parsed to just that descriptor, with `.` for `/` in the names of packages and types,
    whatever constants its pool has, through whichever of them the names are had, whatever
    members and other attributes stand in front, and whatever follows. No other bytes are
    parsed to a descriptor. -/
theorem parse_encode :
    (∀ (v : ModuleFile) (d : ModuleDescriptor) (rest : Bytes), v.Holds d →
      ModuleDescriptor.parse (v.encode ++ rest) = .ok d.inDots) ∧
    ∀ bs e, ModuleDescriptor.parse bs = .ok e →
      ∃ (v : ModuleFile) (d : ModuleDescriptor) (rest : Bytes),
        v.Holds d ∧ bs = v.encode ++ rest ∧ e = d.inDots := by
  have hparse (bs : Bytes) (e : ModuleDescriptor) : ModuleDescriptor.parse bs = .ok e ↔
      ∃ rest, moduleDescriptor.run bs = .ok (e, rest) := by
    unfold ModuleDescriptor.parse
    cases moduleDescriptor.run bs with
    | error e => exact ⟨nofun, nofun⟩
    | ok read => exact ⟨fun h => by cases h; exact ⟨read.2, rfl⟩, fun ⟨_, h⟩ => by cases h; rfl⟩
  refine ⟨fun v d rest hv => ?_, fun bs e h => ?_⟩
  · exact (hparse _ _).2 ⟨rest, (reads_moduleDescriptor _ _ _).2 ⟨v, rfl, d, hv, rfl⟩⟩
  · obtain ⟨rest, hread⟩ := (hparse bs e).1 h
    obtain ⟨v, hbytes, d, hv, he⟩ := (reads_moduleDescriptor _ _ _).1 hread
    exact ⟨v, d, rest, hv, hbytes, he⟩

/-- A module with an entry in each table. Its pool has a long constant in the middle, one
    package is had through a class constant, another attribute stands in front of that of
    the module, and that one has a surplus. -/
def behindOther : ModuleFile where
  minor := 0
  major := 53
  pool :=
    ⟨13, [.utf8 "m" (by decide +kernel), .module 1, longConstant,
      .utf8 "p/q" (by decide +kernel), .package 5, .class 5, .utf8 "Module" (by decide +kernel),
      .utf8 "Other" (by decide +kernel), .utf8 "x/S" (by decide +kernel), .class 10,
      .utf8 "1" (by decide +kernel)], by decide +kernel⟩
  flags := 0x8000
  isModule := by decide
  thisClass := 0
  superClass := 77
  interfaces := ⟨[3], by decide⟩
  fields := ⟨[⟨0x0001, 1, 12, .empty⟩], by decide⟩
  methods := .empty
  attributeCount := 3
  before := [skippedAttribute 9]
  counted := by decide
  attributeName := 8
  module :=
    { name := 2
      flags := 0x0020
      version := 0
      requires := ⟨[⟨2, 0x0040, 12⟩], by decide⟩
      exports := ⟨[⟨6, 0, ⟨[2, 2], by decide⟩⟩], by decide⟩
      opens := ⟨[⟨7, 1, .empty⟩], by decide⟩
      uses := ⟨[11], by decide⟩
      provides := ⟨[⟨11, ⟨[11], by decide⟩⟩], by decide⟩ }
  surplus := [1, 2, 3]
  fits := by decide

theorem parse_behindOther : ModuleDescriptor.parse (behindOther.encode ++ [0]) =
    .ok ⟨"m", 0x0020, none, [⟨"m", 0x0040, some "1"⟩], [⟨"p.q", 0, ["m", "m"]⟩], [⟨"p.q", 1, []⟩],
      ["x.S"], [⟨"x.S", ["x.S"]⟩]⟩ := by
  have hm : behindOther.pool.IsText 1 "m" := ⟨by decide +kernel, [], _, rfl, rfl⟩
  have hpackage : behindOther.pool.IsText 5 "p/q" :=
    ⟨by decide +kernel, behindOther.pool.items.take 3, _, rfl, rfl⟩
  have hservice : behindOther.pool.IsText 10 "x/S" :=
    ⟨by decide +kernel, behindOther.pool.items.take 8, _, rfl, rfl⟩
  have hversion : behindOther.pool.IsText 12 "1" :=
    ⟨by decide +kernel, behindOther.pool.items.take 10, _, rfl, rfl⟩
  have hmodule : behindOther.pool.IsModule 2 "m" :=
    ⟨1, ⟨behindOther.pool.items.take 1, _, rfl, rfl⟩, hm⟩
  have hclass : behindOther.pool.IsClass 11 "x/S" :=
    ⟨10, ⟨behindOther.pool.items.take 9, _, rfl, rfl⟩, hservice⟩
  have hholds : behindOther.Holds ⟨"m", 0x0020, none, [⟨"m", 0x0040, some "1"⟩],
      [⟨"p/q", 0, ["m", "m"]⟩], [⟨"p/q", 1, []⟩], ["x/S"], [⟨"x/S", ["x/S"]⟩]⟩ :=
    { fields := fun m hmem => by
        obtain rfl := List.mem_singleton.1 hmem
        exact ⟨⟨"m", "1", 0x0001⟩, hm, hversion, rfl⟩
      methods := nofun
      before := fun a hmem => by
        obtain rfl := List.mem_singleton.1 hmem
        exact ⟨"Other", ⟨by decide +kernel, behindOther.pool.items.take 7, _, rfl, rfl⟩, by decide⟩
      attributeName := ⟨by decide +kernel, behindOther.pool.items.take 6, _, rfl, rfl⟩
      module :=
        { name := hmodule
          flags := rfl
          version := rfl
          requires := .cons ⟨hmodule, rfl, hversion⟩ .nil
          exports := .cons
            ⟨⟨5, .inl ⟨behindOther.pool.items.take 4, _, rfl, rfl⟩, hpackage⟩, rfl,
              .cons hmodule (.cons hmodule .nil)⟩ .nil
          opens := .cons
            ⟨⟨5, .inr ⟨behindOther.pool.items.take 5, _, rfl, rfl⟩, hpackage⟩, rfl, .nil⟩ .nil
          uses := .cons hclass .nil
          provides := .cons ⟨hclass, .cons hclass .nil⟩ .nil } }
  have hdotted : Text.dotted "p/q" = "p.q" ∧ Text.dotted "x/S" = "x.S" := by decide +kernel
  rw [parse_encode.1 behindOther _ [0] hholds]
  simp only [ModuleDescriptor.inDots, PackageExport.inDots, Provision.inDots, List.map_cons,
    List.map_nil, hdotted]

end PlatformImage.ClassFile
