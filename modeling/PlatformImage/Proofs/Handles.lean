import PlatformImage.Proofs.OverlayHistory
/-! Who opens and who closes an image over a whole session.

Whatever is asked, of whichever images and entries and with whichever changes to the files in
between, the notices about an image tell how it stands (`Image.Recorded`): what one move of the
image does keeps that (`Move.recorded`), so that what a request does keeps it
(`RecordedAt.run`), and it holds after every session (`recordedAt_after`). With what a
request may do to the contents (`Moves.contents`) this says when an image is opened and closed
(`handle_follows_owners`). -/
namespace PlatformImage

/-- Whether a notice says that contents were opened or closed. -/
def Notice.isTurn : Notice → Bool
  | opened => true
  | closed => true
  | _ => false

/-- The notice of the turn of a number, if openings and closings take turns. -/
def Notice.turn (k : Nat) : Notice := if k % 2 = 0 then opened else closed

namespace Image

/-- The notices about an image tell how it stands: openings and closings take turns, beginning with
    an opening, the image is open between the two, and the layout is complained about once. -/
structure Recorded (i : Image) (log : List Notice) : Prop where
  turns : ∀ k n, (log.filter Notice.isTurn)[k]? = some n → n = Notice.turn k
  odd : i.isOpen ↔ (log.filter Notice.isTurn).length % 2 = 1
  reported : log.count .unsupportedLayout = if i.layoutReported then 1 else 0

section
variable {i j : Image} {log notices : List Notice}

theorem Recorded.new (root : String) : (Image.new root).Recorded [] :=
  ⟨nofun, ⟨nofun, nofun⟩, rfl⟩

/-- Notices aside say nothing about how an image stands. -/
theorem Recorded.aside (h : i.Recorded log) (hnotices : ∀ n ∈ notices, n.isAside)
    (hopen : j.isOpen = i.isOpen) (hreported : j.layoutReported = i.layoutReported) :
    j.Recorded (log ++ notices) := by
  have hturns : (log ++ notices).filter Notice.isTurn = log.filter Notice.isTurn := by
    have hnone : notices.filter Notice.isTurn = [] := by
      refine List.filter_eq_nil_iff.2 fun n hn => ?_
      have haside := hnotices n hn
      cases n <;> simp_all [Notice.isAside, Notice.isTurn]
    rw [List.filter_append, hnone, List.append_nil]
  have hcount : notices.count .unsupportedLayout = 0 := by
    refine List.count_eq_zero.2 fun hmem => ?_
    cases hnotices _ hmem
  refine ⟨?_, ?_, ?_⟩
  · rw [hturns]; exact h.turns
  · rw [hturns, hopen]; exact h.odd
  · rw [List.count_append, hcount, hreported]; exact h.reported

/-- The next turn. -/
theorem Recorded.turn (h : i.Recorded log) {n : Notice} (hisTurn : n.isTurn)
    (hnext : n = Notice.turn (log.filter Notice.isTurn).length) (hopen : j.isOpen = !i.isOpen)
    (hreported : j.layoutReported = i.layoutReported) : j.Recorded (log ++ [n]) := by
  have hturns : (log ++ [n]).filter Notice.isTurn = log.filter Notice.isTurn ++ [n] := by
    rw [List.filter_append, List.filter_cons_of_pos hisTurn, List.filter_nil]
  have hcount : [n].count .unsupportedLayout = 0 := by
    refine List.count_eq_zero.2 fun hmem => ?_
    rw [← List.mem_singleton.1 hmem] at hisTurn
    cases hisTurn
  refine ⟨fun k m hm => ?_, ?_, ?_⟩
  · rw [hturns, List.getElem?_append] at hm
    split at hm
    · exact h.turns k m hm
    · next hk =>
      rw [List.getElem?_singleton] at hm
      split at hm
      · next hzero =>
        have hlast : k = (log.filter Notice.isTurn).length := by omega
        cases hm
        rw [hlast]
        exact hnext
      · cases hm
  · have hodd := h.odd
    rw [hturns, hopen, List.length_append, List.length_singleton]
    cases hi : i.isOpen <;> simp only [hi] at hodd ⊢ <;> grind
  · rw [List.count_append, hcount, h.reported, hreported]
    rfl

theorem Recorded.opened (h : i.Recorded log) (hclosed : i.isOpen = false) (c : Contents) :
    Recorded { i with contents := some c } (log ++ [.opened]) := by
  refine h.turn rfl ?_ (by rw [hclosed]; rfl) rfl
  have heven : (log.filter Notice.isTurn).length % 2 = 0 := by
    have hodd := h.odd
    grind
  rw [Notice.turn, if_pos heven]

theorem Recorded.closed (h : i.Recorded log) (hopen : i.isOpen) :
    Recorded { i with contents := none, overlay := none } (log ++ [.closed]) := by
  refine h.turn rfl ?_ (by rw [hopen]; rfl) rfl
  rw [Notice.turn, if_neg (by rw [h.odd.1 hopen]; exact Nat.one_ne_zero)]

/-- The last turn tells whether an image is open. -/
theorem Recorded.isOpen_iff (h : i.Recorded log) :
    i.isOpen ↔ (log.filter Notice.isTurn).getLast? = some .opened := by
  rw [h.odd, List.getLast?_eq_getElem?]
  constructor
  · intro hodd
    have hbound : (log.filter Notice.isTurn).length - 1 < (log.filter Notice.isTurn).length := by
      omega
    have hturn := h.turns _ _ (List.getElem?_eq_getElem hbound)
    rw [List.getElem?_eq_getElem hbound, hturn, Notice.turn, if_pos (by omega)]
  · intro hopened
    have hbound := (List.getElem?_eq_some_iff.1 hopened).1
    have hturn := h.turns _ _ hopened
    rw [Notice.turn] at hturn
    split at hturn
    · omega
    · cases hturn

theorem Recorded.report (h : i.Recorded log) (hfirst : i.layoutReported = false) :
    Recorded { i with layoutReported := true } (log ++ [.unsupportedLayout]) := by
  have hturns :
      (log ++ [Notice.unsupportedLayout]).filter Notice.isTurn = log.filter Notice.isTurn := by
    rw [List.filter_append log [Notice.unsupportedLayout]]
    exact List.append_nil _
  refine ⟨?_, ?_, ?_⟩
  · rw [hturns]; exact h.turns
  · rw [hturns]; exact h.odd
  · rw [List.count_append, h.reported, hfirst]
    rfl

end

section
variable {fs : FileSystem} {overlays : String → Prop} {mayClose : Prop} {u v : Use}
  {front : List Notice}

theorem aside_skipNotice (layout : Layout) : (skipNotice layout).isAside := by
  cases layout <;> rfl

/-- Whatever is done to an image, the notices tell how it stands afterwards. -/
theorem Move.recorded (hmove : Move fs overlays mayClose u v)
    (h : u.image.Recorded (front ++ u.notices)) : v.image.Recorded (front ++ v.notices) := by
  have hsame : ∀ j : Image, j.isOpen = u.image.isOpen →
      j.layoutReported = u.image.layoutReported → j.Recorded (front ++ u.notices) := by
    intro j hopen hreported
    rw [← List.append_nil (front ++ u.notices)]
    exact h.aside (List.forall_mem_nil _) hopen hreported
  cases hmove with
  | note n hn =>
    rw [← List.append_assoc]
    refine h.aside (fun m hm => ?_) rfl rfl
    rw [List.mem_singleton.1 hm]
    exact hn
  | canonical => exact hsame _ rfl rfl
  | normalized => exact hsame _ rfl rfl
  | overlay => exact hsame _ rfl rfl
  | report hfirst =>
    rw [← List.append_assoc]
    exact h.report hfirst
  | opening found hclosed hfound =>
    let skipped := found.skipped.map fun _ => skipNotice found.contents.layout
    have hskipped : u.image.Recorded (front ++ u.notices ++ skipped) := by
      refine h.aside (fun n hn => ?_) rfl rfl
      obtain ⟨path, -, rfl⟩ := List.mem_map.1 hn
      exact aside_skipNotice _
    rw [openNotices, ← List.append_assoc, ← List.append_assoc front, ← List.append_assoc front]
    exact hskipped.opened (by rw [isOpen, hclosed]; rfl) found.contents
  | close hclose =>
    rw [← List.append_assoc]
    cases hopen : u.image.isOpen with
    | true => exact h.closed hopen
    | false => exact h.aside (List.forall_mem_nil _) hopen.symm rfl

theorem Moves.recorded (hmoves : Moves fs overlays mayClose u v)
    (h : u.image.Recorded (front ++ u.notices)) : v.image.Recorded (front ++ v.notices) := by
  induction hmoves with
  | refl => exact h
  | tail _ hmove ih => exact hmove.recorded ih

theorem Moves.root (hmoves : Moves fs overlays mayClose u v) : v.image.root = u.image.root := by
  induction hmoves with
  | refl => rfl
  | tail _ hmove ih => rw [← ih]; cases hmove <;> rfl

/-- Contents are kept, or let go of, or those found at the root. -/
theorem Moves.contents (hmoves : Moves fs overlays mayClose u v) :
    v.image.contents = u.image.contents ∨ v.image.contents = none ∨
      ∃ found, Contents.ofRoot fs u.image.root = .ok found ∧
        v.image.contents = some found.contents := by
  induction hmoves with
  | refl => exact .inl rfl
  | tail hbefore hmove ih =>
    cases hmove with
    | note | canonical | normalized | report | overlay => exact ih
    | opening found hclosed hfound =>
      rw [Moves.root hbefore] at hfound
      exact .inr (.inr ⟨found, hfound, rfl⟩)
    | close => exact .inr (.inl rfl)

/-- What is open stays open unless it may be closed. -/
theorem Moves.isOpen (hmoves : Moves fs overlays mayClose u v) (hstay : ¬mayClose)
    (hopen : u.image.isOpen) : v.image.isOpen := by
  induction hmoves with
  | refl => exact hopen
  | tail _ hmove ih =>
    cases hmove with
    | note | canonical | normalized | report | overlay => exact ih
    | opening => rfl
    | close hclose => exact absurd hclose hstay

theorem on_close (fs : FileSystem) (u : Use) : (close.on fs u).2.image =
    { u.image with contents := none, overlay := none } := by
  unfold close
  rw [Step.on_bind, Step.on_current]
  cases u.image.isOpen <;> rfl

end

end Image

namespace Session

variable {s : Session} {number : Nat}

/-! ## What the notices tell -/

/-- All notices about an image that some requests give. -/
def log (s : Session) (number : Nat) : List Request → List Notice
  | [] => []
  | r :: rs => s.noticesOf r number ++ (s.run r).session.log number rs

/-- Whether the image of a number is open. -/
def isOpen (s : Session) (number : Nat) : Bool := (s.images[number]?).any Image.isOpen

/-- The notices about the image of a number tell how it stands; there are none before the image
    is made. -/
def RecordedAt (s : Session) (number : Nat) (log : List Notice) : Prop :=
  (∀ image, s.images[number]? = some image → image.Recorded log) ∧
    (s.images[number]? = none → log = [])

/-- A request gives no notices about an image that is yet to be made. -/
theorem of_run_eq_none {r : Request} (h : (s.run r).session.images[number]? = none) :
    s.images[number]? = none ∧ s.noticesOf r number = [] := by
  have hchange := change_run s r
  unfold noticesOf
  generalize (s.run r).session = s' at hchange h
  generalize (s.run r).notices = notices at hchange
  have hset {used : Nat} {before i : Image} (hbefore : s.images[used]? = some before)
      (h : (s.images.setIfInBounds used i)[number]? = none) :
      s.images[number]? = none ∧ used ≠ number := by
    have hused := (Array.getElem?_eq_some_iff.1 hbefore).1
    rw [Array.getElem?_eq_none_iff, Array.size_setIfInBounds] at h
    exact ⟨Array.getElem?_eq_none_iff.2 h, by omega⟩
  have hadd {name root : String} (h : (s.addImage name root).images[number]? = none) :
      s.images[number]? = none := by
    have hsize : (s.addImage name root).images.size = s.images.size + 1 := Array.size_push _
    rw [Array.getElem?_eq_none_iff] at h ⊢
    omega
  cases hchange with
  | aside | write | overwrite | remove | newEntry => exact ⟨h, by rw [ite_self]⟩
  | publish register path descriptors =>
    refine ⟨?_, by rw [ite_self]⟩
    cases register <;> exact h
  | newImage name root | configure name toml root e register =>
    exact ⟨@hadd name root h, by rw [ite_self]⟩
  | useImage hname hbefore request =>
    obtain ⟨hnone, hother⟩ := hset hbefore h
    refine ⟨hnone, if_neg fun huses => hother ?_⟩
    exact Option.some.inj (hname.symm.trans huses)
  | useEntry huse hbefore request =>
    obtain ⟨hnone, hother⟩ := hset hbefore h
    refine ⟨hnone, if_neg fun huses => hother ?_⟩
    rw [uses?, huse] at huses
    exact Option.some.inj huses

theorem RecordedAt.run {log : List Notice} (h : s.RecordedAt number log) (r : Request) :
    (s.run r).session.RecordedAt number (log ++ s.noticesOf r number) := by
  refine ⟨fun image himage => ?_, fun hnone => ?_⟩
  · rcases moves_run s r himage with ⟨before, hbefore, hmoves⟩ | ⟨hnone, hnotices, root, rfl⟩
    · refine hmoves.recorded ?_
      rw [List.append_nil]
      exact h.1 before hbefore
    · rw [h.2 hnone, hnotices]
      exact .new root
  · obtain ⟨hbefore, hnotices⟩ := of_run_eq_none hnone
    rw [h.2 hbefore, hnotices]
    rfl

theorem RecordedAt.after {log : List Notice} (h : s.RecordedAt number log) (rs : List Request) :
    (s.after rs).RecordedAt number (log ++ s.log number rs) := by
  induction rs generalizing s log with
  | nil =>
    rw [Session.log, List.append_nil]
    exact h
  | cons r rs ih =>
    rw [Session.log, ← List.append_assoc]
    exact ih (h.run r)

/-- Of an image that is yet to be made nothing is told, and it is not open. -/
theorem RecordedAt.tells {log : List Notice} (h : s.RecordedAt number log) :
    (∀ k n, (log.filter Notice.isTurn)[k]? = some n → n = Notice.turn k) ∧
    (s.isOpen number ↔ (log.filter Notice.isTurn).getLast? = some .opened) ∧
    log.count .unsupportedLayout ≤ 1 := by
  cases himage : s.images[number]? with
  | none =>
    rw [h.2 himage, isOpen, himage]
    exact ⟨nofun, ⟨nofun, nofun⟩, Nat.zero_le 1⟩
  | some image =>
    have hstands := h.1 image himage
    refine ⟨hstands.turns, ?_, ?_⟩
    · rw [isOpen, himage]
      exact hstands.isOpen_iff
    · rw [hstands.reported]
      split <;> decide

/-- In every session the notices about an image tell how it stands. -/
theorem recordedAt_after (files : FileSystem) (vars : JavaHome.Variables) (rs : List Request)
    (number : Nat) :
    ((start files vars).after rs).RecordedAt number ((start files vars).log number rs) := by
  have hstart : (start files vars).RecordedAt number [] := ⟨nofun, fun _ => rfl⟩
  exact hstart.after rs

/-! ## Single requests -/

/-- The image of a number is one that is open. -/
theorem isOpen_iff : s.isOpen number ↔
    ∃ image, s.images[number]? = some image ∧ image.isOpen := by
  unfold isOpen
  cases s.images[number]? with
  | none => exact ⟨nofun, nofun⟩
  | some image => exact ⟨fun h => ⟨image, rfl, h⟩, fun ⟨_, himage, h⟩ => by cases himage; exact h⟩

/-- Being reset, an entry forgets its overlays, and closes the image if it owns it. -/
theorem entryResult_reset (s : Session) (use : EntryUse) (image : Image) :
    s.entryResult use image .reset =
      (((.nothing, { use.entry with annotationPaths := [] }), s.register use.register),
        if use.entry.closesAtEnd then (Image.close.on s.files ⟨image, []⟩).2 else ⟨image, []⟩) := by
  obtain ⟨⟨closesAtEnd, rules, destination, paths⟩, number, register⟩ := use
  cases closesAtEnd <;> rfl

/-- What closes an image leaves it closed. -/
theorem Closes.isOpen_run {r : Request} (h : s.Closes r number) :
    (s.run r).session.isOpen number = false := by
  rcases h with ⟨name, rfl, hname⟩ | ⟨name, use, rfl, huse, rfl, hown⟩
  · cases hbefore : s.images[number]? with
    | none =>
      simp only [run, useImage, hname, hbefore, isOpen]
      rfl
    | some before =>
      have hclosed : ((ImageRequest.step .close).on s.files ⟨before, []⟩).2.image = _ :=
        Image.on_close s.files ⟨before, []⟩
      rw [run, isOpen, (session_useImage hname hbefore .close).2.2, hclosed]
      rfl
  · cases hbefore : s.images[use.image]? with
    | none =>
      simp only [run, useEntry, huse, hbefore, isOpen]
      rfl
    | some before =>
      rw [run, isOpen, (session_useEntry huse hbefore .reset).2.1, entryResult_reset, if_pos hown,
        Option.any_some, Image.isOpen, Image.on_close]
      rfl

/-- An open image is closed by what closes it, and by nothing else. -/
theorem isOpen_run_eq_false {r : Request} (hopen : s.isOpen number) :
    (s.run r).session.isOpen number = false ↔ s.Closes r number := by
  refine ⟨fun hclosed => ?_, Closes.isOpen_run⟩
  by_contra hstay
  obtain ⟨before, hbefore, hopened⟩ := isOpen_iff.1 hopen
  cases hafter : (s.run r).session.images[number]? with
  | none =>
    rw [(of_run_eq_none hafter).1] at hbefore
    cases hbefore
  | some image =>
    rcases moves_run s r hafter with ⟨i, hi, hmoves⟩ | ⟨hnone, -⟩
    · cases hi.symm.trans hbefore
      rw [isOpen_iff.2 ⟨image, hafter, hmoves.isOpen hstay hopened⟩] at hclosed
      cases hclosed
    · cases hnone.symm.trans hbefore

/-- A closed image is opened with what is found at its root. -/
theorem contents_run {r : Request} {image : Image} (hclosed : s.isOpen number = false)
    (hafter : (s.run r).session.images[number]? = some image) (hopen : image.isOpen) :
    ∃ before found, s.images[number]? = some before ∧
      Image.Contents.ofRoot s.files before.root = .ok found ∧
      image.contents = some found.contents := by
  rcases moves_run s r hafter with ⟨before, hbefore, hmoves⟩ | ⟨-, -, root, rfl⟩
  · rcases hmoves.contents with hsame | hnone | ⟨found, hfound, hc⟩
    · have hopened : before.isOpen := by
        rw [Image.isOpen] at hopen ⊢
        rw [← hsame]
        exact hopen
      rw [isOpen_iff.2 ⟨before, hbefore, hopened⟩] at hclosed
      cases hclosed
    · rw [Image.isOpen, hnone] at hopen
      cases hopen
    · exact ⟨before, found, hbefore, hfound, hc⟩
  · cases hopen

/-- It stays closed if what is at its root cannot be opened. -/
theorem isOpen_run_of_error {r : Request} {before : Image} {e : Image.Error}
    (hclosed : s.isOpen number = false) (hbefore : s.images[number]? = some before)
    (hfails : Image.Contents.ofRoot s.files before.root = .error e) :
    (s.run r).session.isOpen number = false := by
  by_contra hopen
  obtain ⟨image, hafter, hopened⟩ := isOpen_iff.1 (Bool.not_eq_false _ ▸ hopen)
  obtain ⟨i, found, hi, hfound, -⟩ := contents_run hclosed hafter hopened
  cases hbefore.symm.trans hi
  cases hfails.symm.trans hfound

/-- A request that uses no image gives no notices. -/
theorem notices_eq_nil {r : Request} (h : s.uses? r = none) : (s.run r).notices = [] := by
  have hchange := change_run s r
  generalize (s.run r).session = s' at hchange
  generalize (s.run r).notices = notices at hchange
  cases hchange with
  | aside | write | overwrite | remove | newEntry | publish | newImage | configure => rfl
  | useImage hname hbefore request => cases hname.symm.trans h
  | useEntry huse hbefore request =>
    rw [uses?, huse] at h
    cases h

/-- Resetting an entry that does not own its image takes its overlays away, and changes nothing
    else. -/
theorem run_reset (hs : s.Numbered) {name : String} {use : EntryUse}
    (huse : s.entries.get? name = some use) (hown : use.entry.closesAtEnd = false) :
    (s.run (.useEntry name .reset)).answer = .nothing ∧
    (s.run (.useEntry name .reset)).notices = [] ∧
    { (s.run (.useEntry name .reset)).session with registers := s.registers } =
      { s with
        entries := s.entries.insert name
          { use with entry := { use.entry with annotationPaths := [] } } } ∧
    ∀ k, (s.run (.useEntry name .reset)).session.register k = s.register k := by
  obtain ⟨before, hbefore⟩ : ∃ before, s.images[use.image]? = some before :=
    ⟨_, Array.getElem?_eq_getElem (hs.entries name use huse)⟩
  have hset : s.images.setIfInBounds use.image before = s.images := by
    obtain ⟨hbound, rfl⟩ := Array.getElem?_eq_some_iff.1 hbefore
    rw [Array.setIfInBounds_def, dif_pos hbound]
    exact Array.set_getElem_self hbound
  rw [run, useEntry_eq huse hbefore, entryResult_reset, hown, if_neg Bool.false_ne_true]
  dsimp only
  rw [hset]
  refine ⟨rfl, rfl, ?_, fun k => ?_⟩
  · cases hregister : use.register <;> rfl
  · refine Eq.trans (register_setRegister s (s.register use.register) use.register k) ?_
    split
    · next hk => rw [hk]
    · rfl

/-! ## Whole sessions -/

/-- **An image is opened by who asks, and closed by its owners.** However many images and entries
    there are, and whatever is asked of them while the files change: of every image the notices
    of opening and closing take turns, beginning with an opening, and it is open just when the
    last of them is one; an unknown layout is complained about once at most. A request closes an
    open image just when it is a close of that image or the reset of an entry that owns it; it
    opens a closed one with what is found at its root, so not if opening the root fails. And
    resetting an entry that does not own its image takes its overlays away, and changes
    nothing else. -/
theorem handle_follows_owners (files : FileSystem) (vars : JavaHome.Variables)
    (rs : List Request) (number : Nat) :
    let s := (start files vars).after rs
    let notices := (start files vars).log number rs
    let turns := notices.filter Notice.isTurn
    (∀ k n, turns[k]? = some n → n = Notice.turn k) ∧
    (s.isOpen number ↔ turns.getLast? = some .opened) ∧
    notices.count .unsupportedLayout ≤ 1 ∧
    ∀ r : Request,
      (s.uses? r = none → (s.run r).notices = []) ∧
      (s.isOpen number → ((s.run r).session.isOpen number = false ↔ s.Closes r number)) ∧
      (∀ image, (s.run r).session.images[number]? = some image → s.isOpen number = false →
        image.isOpen → ∃ before found, s.images[number]? = some before ∧
          Image.Contents.ofRoot s.files before.root = .ok found ∧
          image.contents = some found.contents) ∧
      (∀ before e, s.images[number]? = some before → s.isOpen number = false →
        Image.Contents.ofRoot s.files before.root = .error e →
        (s.run r).session.isOpen number = false) ∧
      ∀ name use, r = .useEntry name .reset → s.entries.get? name = some use →
        use.entry.closesAtEnd = false →
        (s.run r).answer = .nothing ∧ (s.run r).notices = [] ∧
        { (s.run r).session with registers := s.registers } =
          { s with
            entries := s.entries.insert name
              { use with entry := { use.entry with annotationPaths := [] } } } ∧
        ∀ k, (s.run r).session.register k = s.register k := by
  intro s notices turns
  obtain ⟨hturns, hlast, hreported⟩ := (recordedAt_after files vars rs number).tells
  refine ⟨hturns, hlast, hreported, fun r => ⟨notices_eq_nil, isOpen_run_eq_false,
    fun image hafter hclosed hopen => contents_run hclosed hafter hopen,
    fun before e hbefore hclosed hfails => isOpen_run_of_error hclosed hbefore hfails, ?_⟩⟩
  rintro name use rfl huse hown
  exact run_reset (numbered_after files vars rs) huse hown

/-- The requests that make the session with the annotated class. -/
def annotatedRequests : List Request :=
  [.newImage "i" "/i", .newEntry "e" "i" (annotating [shortPath]) none]

theorem after_annotatedRequests :
    (start annotatedFiles ⟨none, none, "/"⟩).after annotatedRequests = annotated := rfl

theorem after_askingOnce : (start annotatedFiles ⟨none, none, "/"⟩).after
    (annotatedRequests ++ [.useEntry "e" (.findType "a" "a/A.class" .all)]) = askedOnce := rfl

theorem imageNames_askedOnce : askedOnce.imageNames.get? "i" = some 0 := by
  have hsame : askedOnce.imageNames = NameMap.empty.insert "i" 0 := by
    rw [askedOnce, run, useEntry_eq entry_annotated image_annotated]
    rfl
  rw [hsame, NameMap.get?_insert, if_pos rfl]

theorem ofRoot_missing : Image.Contents.ofRoot annotatedFiles "/q" = .error (.notFound "/q") := by
  have hmissing : annotatedFiles.isDirectory (Path.join "/" "q") = false :=
    FileSystem.isDirectory_join_of_none (FileSystem.node?_root annotatedFiles) (by decide) rfl
  have hjoin : Path.join "/" "q" = "/q" := by decide
  rw [Image.Contents.ofRoot, ← hjoin, hmissing]
  rfl

/-- A lookup opens the image. A reset of its entry, which does not own it, takes the overlays
    away only, and a close closes the image. At another root nothing can be opened. -/
theorem handle_follows_owners_annotated :
    (annotated.run (.remove "/o")).notices = [] ∧
    (∃ image found, askedOnce.images[0]? = some image ∧
      Image.Contents.ofRoot annotatedFiles "/i" = .ok found ∧
      image.contents = some found.contents) ∧
    (askedOnce.run (.useEntry "e" .reset)).notices = [] ∧
    (askedOnce.run (.useImage "i" .close)).session.isOpen 0 = false ∧
    ((((start annotatedFiles ⟨none, none, "/"⟩).run (.newImage "q" "/q")).session.run
      (.useImage "q" .layout)).session.isOpen 0 = false) := by
  obtain ⟨c, handle, -, -, -, -, -, himage⟩ := askedOnce_eq
  obtain ⟨-, -, -, hannotated⟩ :=
    handle_follows_owners annotatedFiles ⟨none, none, "/"⟩ annotatedRequests 0
  obtain ⟨-, -, -, hasked⟩ := handle_follows_owners annotatedFiles ⟨none, none, "/"⟩
    (annotatedRequests ++ [.useEntry "e" (.findType "a" "a/A.class" .all)]) 0
  obtain ⟨-, -, -, hmissing⟩ :=
    handle_follows_owners annotatedFiles ⟨none, none, "/"⟩ [.newImage "q" "/q"] 0
  rw [after_annotatedRequests] at hannotated
  rw [after_askingOnce] at hasked
  have hopen : askedOnce.isOpen 0 := isOpen_iff.2 ⟨_, himage, rfl⟩
  obtain ⟨before, found, hbefore, hfound, hc⟩ :=
    (hannotated (.useEntry "e" (.findType "a" "a/A.class" .all))).2.2.1 _ himage rfl rfl
  cases hbefore
  refine ⟨(hannotated (.remove "/o")).1 rfl, ⟨_, found, himage, hfound, hc⟩, ?_, ?_, ?_⟩
  · exact ((hasked (.useEntry "e" .reset)).2.2.2.2 "e" annotatedUse rfl entry_askedOnce rfl).2.1
  · exact ((hasked (.useImage "i" .close)).2.1 hopen).2 (.inl ⟨"i", rfl, imageNames_askedOnce⟩)
  · exact (hmissing (.useImage "q" .layout)).2.2.2.1 (.new "/q") _ rfl rfl ofRoot_missing

end Session

end PlatformImage
