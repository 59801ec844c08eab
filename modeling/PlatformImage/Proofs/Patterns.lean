import PlatformImage.Proofs.Matching
import PlatformImage.Proofs.SamePath
import PlatformImage.Proofs.Utf8
/-! What a pattern of type paths says, and when the matcher finds just that. A pattern fits a path
if the path can be cut so that `**` stands for any segments, within a segment `*` for any run of
characters and `?` for one, and all else for itself (`PathFits`).

The matcher looks at bytes, and it looks whether two bytes are the same before it looks whether one
is a star. Within a segment without stars it finds just what can be cut into bytes so
(`segmentMatches_iff_cut`). So it finds what fits as long as no `?` is held against characters of several bytes and
no star against a star (`matches_documented`). Otherwise it may not: a `?` by itself takes no such
character (`missed_by_any`), and a star at the end of a pattern nothing behind what begins like the
pattern, star included (`missed_by_star`). -/
namespace PlatformImage.Access

open Text

/-! ## Wildcards within a segment -/

/-- What a symbol within a segment stands for: `star` for any run of items, `any` for one item, and
    any other for itself. -/
def Wild {γ : Type} [DecidableEq γ] (star any a : γ) (run : List γ) : Prop :=
  if a = star then True else if a = any then ∃ b, run = [b] else run = [a]

section Wild
variable {γ : Type} [DecidableEq γ] {star any a : γ} {run : List γ}

instance : Decidable (Wild star any a run) :=
  if hstar : a = star then isTrue (by rw [Wild, if_pos hstar]; trivial)
  else if hany : a = any then
    decidable_of_iff (run.length = 1) (by
      rw [Wild, if_neg hstar, if_pos hany]
      exact List.length_eq_one_iff)
  else decidable_of_iff (run = [a]) (by rw [Wild, if_neg hstar, if_neg hany])

theorem wild_star (any : γ) (run : List γ) : Wild star any star run := by
  simp [Wild]

theorem wild_self : Wild star any a [a] := by
  unfold Wild
  split
  · trivial
  · split
    · exact ⟨a, rfl⟩
    · rfl

theorem wild_any (h : any ≠ star) : Wild star any any run ↔ ∃ b, run = [b] := by
  simp [Wild, h]

theorem wild_literal (hstar : a ≠ star) (hany : a ≠ any) : Wild star any a run ↔ run = [a] := by
  simp [Wild, hstar, hany]

/-- Whatever a pattern says, it fits itself. -/
theorem cuts_wild_self {pattern : List γ} : Cuts (Wild star any) pattern pattern := by
  induction pattern with
  | nil => exact cuts_nil.2 rfl
  | cons a pattern ih => exact cuts_cons.2 ⟨[a], pattern, rfl, wild_self, ih⟩

/-- Items that are no wildcards stand for themselves. -/
theorem cuts_literal {literal text : List γ} (hstar : star ∉ literal) (hany : any ∉ literal) :
    Cuts (Wild star any) literal text ↔ text = literal := by
  induction literal generalizing text with
  | nil => exact cuts_nil
  | cons a literal ih =>
    rw [List.mem_cons, not_or] at hstar hany
    have hself (block : List γ) : Wild star any a block ↔ block = [a] :=
      wild_literal (Ne.symm hstar.1) (Ne.symm hany.1)
    rw [cuts_cons]
    constructor
    · rintro ⟨block, rest, rfl, hblock, hrest⟩
      rw [(hself block).1 hblock, (ih hstar.2 hany.2).1 hrest]
      rfl
    · rintro rfl
      exact ⟨[a], literal, rfl, (hself [a]).2 rfl, (ih hstar.2 hany.2).2 rfl⟩

end Wild

/-! ## Wildcards among bytes -/

theorem utf8EncodeChar_star : String.utf8EncodeChar '*' = [starByte] := by decide

theorem utf8EncodeChar_any : String.utf8EncodeChar '?' = [anyByte] := by decide

/-- The byte of a star stands for a star only. -/
theorem starByte_mem_utf8 {cs : List Char} (h : starByte ∈ utf8 cs) : '*' ∈ cs := by
  obtain ⟨c, hc, hmem⟩ := List.mem_flatMap.1 h
  exact eq_of_mem_utf8EncodeChar utf8EncodeChar_star hmem ▸ hc

section
variable {c : Char} {cs ds : List Char}

/-- A cut of characters is one of their bytes, as long as no character of several bytes is to
    stand for a single one. -/
theorem cuts_utf8_of_cuts (hany : '?' ∈ cs → ∀ d ∈ ds, Ascii d)
    (h : Cuts (Wild '*' '?') cs ds) : Cuts (Wild starByte anyByte) (utf8 cs) (utf8 ds) := by
  induction cs generalizing ds with
  | nil => rw [cuts_nil.1 h]; exact cuts_nil.2 rfl
  | cons c cs ih =>
    obtain ⟨run, rest, rfl, hrun, hrest⟩ := cuts_cons.1 h
    have hrest := ih (fun hmem d hd => hany (List.mem_cons_of_mem c hmem) d (by simp [hd])) hrest
    rw [utf8_cons, utf8_append]
    refine cuts_append.2 ⟨_, _, rfl, ?_, hrest⟩
    by_cases hstar : c = '*'
    · subst hstar
      rw [utf8EncodeChar_star]
      exact cuts_cons.2 ⟨_, [], (List.append_nil _).symm, wild_star _ _, cuts_nil.2 rfl⟩
    · by_cases hquestion : c = '?'
      · subst hquestion
        obtain ⟨d, rfl⟩ := (wild_any (by decide)).1 hrun
        have hascii : Ascii d := hany List.mem_cons_self d (by simp)
        rw [utf8EncodeChar_any, utf8_single, utf8EncodeChar_ascii hascii]
        exact cuts_cons.2 ⟨_, [], (List.append_nil _).symm, (wild_any (by decide)).2 ⟨_, rfl⟩,
          cuts_nil.2 rfl⟩
      · obtain rfl := (wild_literal hstar hquestion).1 hrun
        rw [utf8_single]
        refine (cuts_literal (fun hmem => hstar ?_) fun hmem => hquestion ?_).2 rfl
        · exact eq_of_mem_utf8EncodeChar utf8EncodeChar_star hmem
        · exact eq_of_mem_utf8EncodeChar utf8EncodeChar_any hmem

/-- The bytes of a character that is no wildcard stand for themselves. -/
theorem cuts_utf8EncodeChar (hstar : c ≠ '*') (hquestion : c ≠ '?') {bytes : List UInt8}
    (h : Cuts (Wild starByte anyByte) (utf8 (c :: cs)) bytes) :
    ∃ rest, bytes = String.utf8EncodeChar c ++ rest ∧
      Cuts (Wild starByte anyByte) (utf8 cs) rest := by
  obtain ⟨before, after, rfl, hbefore, hafter⟩ := cuts_append.1 h
  refine ⟨after, ?_, hafter⟩
  rw [(cuts_literal (fun hmem => hstar ?_) fun hmem => hquestion ?_).1 hbefore]
  · exact eq_of_mem_utf8EncodeChar utf8EncodeChar_star hmem
  · exact eq_of_mem_utf8EncodeChar utf8EncodeChar_any hmem

/-- Bytes that a character other than a star begins to match begin with a character. -/
theorem exists_boundary_of_cuts (hany : '?' ∈ c :: cs → ∀ d ∈ ds, Ascii d) (hstar : c ≠ '*')
    {front rest : List UInt8} (hsplit : utf8 ds = front ++ rest)
    (h : Cuts (Wild starByte anyByte) (utf8 (c :: cs)) rest) :
    ∃ before after, ds = before ++ after ∧ utf8 after = rest := by
  obtain ⟨b, rest, rfl, hb⟩ : ∃ b tail, rest = b :: tail ∧ b.IsUTF8FirstByte := by
    by_cases hquestion : c = '?'
    · subst hquestion
      rw [utf8_cons, utf8EncodeChar_any] at h
      obtain ⟨run, rest, rfl, hrun, -⟩ := cuts_cons.1 h
      obtain ⟨b, rfl⟩ : ∃ b, run = [b] := (wild_any (by decide)).1 hrun
      have hmem : b ∈ utf8 ds := by simp [hsplit]
      obtain ⟨d, hd, hmem⟩ := List.mem_flatMap.1 hmem
      obtain ⟨first, tail, hbytes, hfirst, -⟩ := utf8EncodeChar_eq d
      rw [utf8EncodeChar_ascii (hany List.mem_cons_self d hd)] at hbytes hmem
      refine ⟨b, rest, rfl, ?_⟩
      rw [List.mem_singleton.1 hmem, List.head_eq_of_cons_eq hbytes]
      exact hfirst
    · obtain ⟨later, rfl, -⟩ := cuts_utf8EncodeChar hstar hquestion h
      obtain ⟨first, tail, hbytes, hfirst, -⟩ := utf8EncodeChar_eq c
      exact ⟨first, tail ++ later, by rw [hbytes]; rfl, hfirst⟩
  obtain ⟨before, after, hds, -, hafter⟩ := exists_boundary hsplit hb
  exact ⟨before, after, hds, hafter⟩

/-- A character other than a star matches one character. -/
theorem exists_cons_of_cuts (hany : '?' ∈ c :: cs → ∀ d ∈ ds, Ascii d) (hstar : c ≠ '*')
    (h : Cuts (Wild starByte anyByte) (utf8 (c :: cs)) (utf8 ds)) :
    ∃ d rest, ds = d :: rest ∧ Wild '*' '?' c [d] ∧
      Cuts (Wild starByte anyByte) (utf8 cs) (utf8 rest) := by
  by_cases hquestion : c = '?'
  · subst hquestion
    rw [utf8_cons, utf8EncodeChar_any] at h
    obtain ⟨run, later, hrest, hrun, hlater⟩ := cuts_cons.1 h
    obtain ⟨b, rfl⟩ : ∃ b, run = [b] := (wild_any (by decide)).1 hrun
    cases ds with
    | nil => cases hrest
    | cons d ds =>
      rw [utf8_cons, utf8EncodeChar_ascii (hany List.mem_cons_self d List.mem_cons_self)] at hrest
      obtain ⟨-, rfl⟩ := List.cons.inj hrest
      exact ⟨d, ds, rfl, (wild_any (by decide)).2 ⟨d, rfl⟩, hlater⟩
  · obtain ⟨later, hrest, hlater⟩ := cuts_utf8EncodeChar hstar hquestion h
    cases ds with
    | nil => simp [utf8] at hrest
    | cons d ds =>
      obtain ⟨rfl, rfl⟩ := utf8EncodeChar_append hrest
      exact ⟨d, ds, rfl, (wild_literal hstar hquestion).2 rfl, hlater⟩

/-- A cut of the bytes of a text is one of its characters. And where it is one of bytes at the end
    of the text, which may begin within a character, there is one of characters at the end. -/
theorem cuts_of_cuts_utf8 (hany : '?' ∈ cs → ∀ d ∈ ds, Ascii d) :
    (Cuts (Wild starByte anyByte) (utf8 cs) (utf8 ds) → Cuts (Wild '*' '?') cs ds) ∧
    ∀ front rest, utf8 ds = front ++ rest → Cuts (Wild starByte anyByte) (utf8 cs) rest →
      ∃ before after, ds = before ++ after ∧ Cuts (Wild '*' '?') cs after := by
  induction cs generalizing ds with
  | nil =>
    constructor
    · intro h
      exact cuts_nil.2 (utf8_eq_nil.1 (cuts_nil.1 h))
    · intro front rest _ _
      exact ⟨ds, [], (List.append_nil ds).symm, cuts_nil.2 rfl⟩
  | cons c cs ih =>
    by_cases hstar : c = '*'
    · subst hstar
      have hlater (front rest : List UInt8) (hsplit : utf8 ds = front ++ rest)
          (h : Cuts (Wild starByte anyByte) (utf8 ('*' :: cs)) rest) :
          ∃ before after, ds = before ++ after ∧ Cuts (Wild '*' '?') cs after := by
        rw [utf8_cons, utf8EncodeChar_star] at h
        obtain ⟨run, later, rfl, -, hlater⟩ := cuts_cons.1 h
        exact (ih fun hmem => hany (List.mem_cons_of_mem _ hmem)).2 (front ++ run) later
          (by rw [hsplit, List.append_assoc]) hlater
      constructor
      · intro h
        obtain ⟨before, after, rfl, hafter⟩ := hlater [] _ rfl h
        exact cuts_cons.2 ⟨before, after, rfl, wild_star _ _, hafter⟩
      · intro front rest hsplit h
        obtain ⟨before, after, rfl, hafter⟩ := hlater front rest hsplit h
        exact ⟨before, after, rfl, cuts_cons.2 ⟨[], after, rfl, wild_star _ _, hafter⟩⟩
    · have hhere {ds : List Char} (hany : '?' ∈ c :: cs → ∀ d ∈ ds, Ascii d)
          (h : Cuts (Wild starByte anyByte) (utf8 (c :: cs)) (utf8 ds)) :
          Cuts (Wild '*' '?') (c :: cs) ds := by
        obtain ⟨d, rest, rfl, hd, hrest⟩ := exists_cons_of_cuts hany hstar h
        refine cuts_cons.2 ⟨[d], rest, rfl, hd, (ih fun hmem e he => ?_).1 hrest⟩
        exact hany (List.mem_cons_of_mem c hmem) e (List.mem_cons_of_mem d he)
      constructor
      · exact hhere hany
      · intro front rest hsplit h
        obtain ⟨before, after, rfl, rfl⟩ := exists_boundary_of_cuts hany hstar hsplit h
        exact ⟨before, after, rfl, hhere (fun hmem d hd => hany hmem d (by simp [hd])) h⟩

end

/-! ## Segments -/

/-- What a segment of a pattern says: which segments of a path it stands for. -/
def SegmentFits (pattern segment : String) : Prop :=
  Cuts (Wild '*' '?') pattern.toList segment.toList

instance (pattern segment : String) : Decidable (SegmentFits pattern segment) :=
  inferInstanceAs (Decidable (Cuts _ _ _))

section
variable {pattern segment : String}

theorem byteSymbols_stands : byteSymbols.Stands = Wild starByte anyByte := by
  funext a block
  apply propext
  unfold Symbols.Stands byteSymbols Wild
  by_cases hstar : a = starByte
  · simp [hstar]
  · by_cases hany : a = anyByte
    · simp [hany, starByte, anyByte]
    · simp only [hstar, hany, beq_iff_eq, if_false, false_or]
      constructor
      · rintro ⟨b, rfl, hmove⟩
        split at hmove
        · next hsame => rw [hsame]
        · cases hmove
      · rintro rfl
        exact ⟨a, rfl, if_pos rfl⟩

/-- A segment that is found to match can be cut. -/
theorem cuts_of_segmentMatches (h : segmentMatches pattern segment = true) :
    Cuts (Wild starByte anyByte) (utf8 pattern.toList) (utf8 segment.toList) := by
  rw [← toUTF8_eq, ← toUTF8_eq, ← byteSymbols_stands]
  exact Symbols.cuts_of_matches h

/-- Among bytes, stars are read as such if none is held against a star. -/
theorem byteSymbols_starsAct {pattern text : List UInt8} (h : starByte ∈ pattern → starByte ∉ text) :
    byteSymbols.StarsAct pattern text := by
  intro a ha b hb hisStar
  obtain rfl : a = starByte := beq_iff_eq.1 hisStar
  have hother : starByte ≠ b := by
    rintro rfl
    exact h ha hb
  show (if starByte = anyByte ∨ starByte = b then Move.take else _) = Move.star
  rw [if_neg (not_or.2 ⟨by decide, hother⟩), if_pos rfl]

/-- Bytes that can be cut are found to match, if no star is held against a star. -/
theorem segmentMatches_of_bytes
    (hstar : starByte ∈ utf8 pattern.toList → starByte ∉ utf8 segment.toList)
    (h : Cuts (Wild starByte anyByte) (utf8 pattern.toList) (utf8 segment.toList)) :
    segmentMatches pattern segment = true := by
  rw [← toUTF8_eq, ← toUTF8_eq] at hstar h
  rw [← byteSymbols_stands] at h
  exact Symbols.matches_of_cuts (byteSymbols_starsAct hstar) h

/-- A segment that can be cut is found to match, if no star is held against a star. -/
theorem segmentMatches_of_cuts (hstar : '*' ∈ pattern.toList → '*' ∉ segment.toList)
    (h : Cuts (Wild starByte anyByte) (utf8 pattern.toList) (utf8 segment.toList)) :
    segmentMatches pattern segment = true := by
  refine segmentMatches_of_bytes (fun hpattern hsegment => ?_) h
  exact hstar (starByte_mem_utf8 hpattern) (starByte_mem_utf8 hsegment)

theorem segmentFits_of_segmentMatches
    (hany : '?' ∈ pattern.toList → ∀ c ∈ segment.toList, Ascii c)
    (h : segmentMatches pattern segment = true) : SegmentFits pattern segment :=
  (cuts_of_cuts_utf8 hany).1 (cuts_of_segmentMatches h)

theorem segmentMatches_of_segmentFits
    (hany : '?' ∈ pattern.toList → ∀ c ∈ segment.toList, Ascii c)
    (hstar : '*' ∈ pattern.toList → '*' ∉ segment.toList) (h : SegmentFits pattern segment) :
    segmentMatches pattern segment = true :=
  segmentMatches_of_cuts hstar (cuts_utf8_of_cuts hany h)

end

/-- **Within a segment the bytes decide.** A segment that is found to match can be cut so that each
    star of the pattern stands for a run of bytes, each `?` for one byte and every other byte for
    itself. Of the segments without a star, just those that can be cut so are found to match. -/
theorem segmentMatches_iff_cut (pattern segment : String) :
    (segmentMatches pattern segment = true →
      Cuts (Wild starByte anyByte) pattern.toUTF8.data.toList segment.toUTF8.data.toList) ∧
    (starByte ∉ segment.toUTF8.data.toList →
      (segmentMatches pattern segment = true ↔
        Cuts (Wild starByte anyByte) pattern.toUTF8.data.toList segment.toUTF8.data.toList)) := by
  rw [toUTF8_eq, toUTF8_eq]
  refine ⟨cuts_of_segmentMatches, fun hstar => ⟨cuts_of_segmentMatches, ?_⟩⟩
  exact segmentMatches_of_bytes fun _ => hstar

/-- The star in the middle has to take more than at first; behind the last byte nothing matches. -/
theorem segmentMatches_iff_cut_nearMiss :
    starByte ∉ "aabacb".toUTF8.data.toList ∧ segmentMatches "a*a*b" "aabacb" = true ∧
    segmentMatches "a*a*b" "aabacbc" = false := by
  have hstar : starByte ∉ "aabacb".toUTF8.data.toList := by decide
  refine ⟨hstar, ((segmentMatches_iff_cut _ _).2 hstar).2 (by decide), ?_⟩
  exact Bool.eq_false_iff.2 (mt (segmentMatches_iff_cut _ _).1 (by decide))

/-! ## Paths -/

/-- A pattern with the `**` written out that a slash at its end stands for. -/
def spelledOut (pattern : String) : String :=
  if pattern.toList.getLast? = some '/' then pattern ++ anySegments else pattern

/-- What a pattern says: which paths it stands for. -/
def PathFits (pattern path : String) : Prop :=
  Cuts (Spans SegmentFits) (segments (spelledOut pattern)) (segments path)

instance (pattern path : String) : Decidable (PathFits pattern path) :=
  inferInstanceAs (Decidable (Cuts _ _ _))

example : PathFits "java/lang/Str?ng" "java/lang/String" ∧
    ¬PathFits "java/lang/*" "java/lang/reflect/Method" := by decide

example : PathFits "com/sun/" "com/sun/net/httpserver/HttpServer" ∧
    ¬PathFits "**/internal/**" "jdk/internals/VM" := by decide

section
variable {pattern path a : String}

theorem patternSegments_eq (pattern : String) :
    patternSegments pattern = segments (spelledOut pattern) := by
  unfold patternSegments spelledOut
  split
  · next hlast =>
    obtain ⟨front, hfront⟩ : ∃ front, pattern = front ++ "/" := by
      obtain ⟨front, hfront⟩ := List.getLast?_eq_some_iff.1 hlast
      refine ⟨String.ofList front, String.ext ?_⟩
      simpa using hfront
    have hempty : segments (front ++ "/") = segments front ++ [""] := by
      have happend := segments_append front ""
      rwa [String.append_empty] at happend
    have hspan : segments anySegments = [anySegments] := segments_eq_single (by decide)
    rw [hfront, segments_append, hempty, hspan]
    show (segments front ++ [""]).dropLast ++ [anySegments] = _
    rw [List.dropLast_concat]
  · rfl

/-- A character of a segment of a pattern, other than a star, is one of the pattern. -/
theorem mem_of_mem_patternSegments {c : Char} (ha : a ∈ patternSegments pattern)
    (hc : c ∈ a.toList) (hstar : c ≠ '*') : c ∈ pattern.toList := by
  have hslash : c ≠ '/' := by
    rintro rfl
    rw [patternSegments_eq] at ha
    exact not_mem_of_mem_segments ha hc
  rw [patternSegments_eq] at ha
  have hmem := (mem_segments hslash).1 ⟨a, ha, hc⟩
  unfold spelledOut at hmem
  split at hmem
  · rw [String.toList_append, List.mem_append] at hmem
    rcases hmem with hmem | hmem
    · exact hmem
    · simp [anySegments, hstar] at hmem
  · exact hmem

theorem pathMatches_iff : pathMatches pattern path = true ↔
    Cuts (Spans (segmentMatches · ·)) (segments (spelledOut pattern)) (segments path) := by
  rw [pathMatches, segmentSymbols_eq, patternSegments_eq]
  exact spanning_matches_iff

/-- Whoever takes more segments spans more. -/
theorem Spans.mono {takes takes' : String → String → Prop} {block : List String}
    (himp : ∀ segment ∈ block, takes a segment → takes' a segment) (h : Spans takes a block) :
    Spans takes' a block := by
  unfold Spans at h ⊢
  split at h
  · next hspan => rwa [if_pos hspan]
  · next hspan =>
    obtain ⟨segment, rfl, htakes⟩ := h
    rw [if_neg hspan]
    exact ⟨segment, rfl, himp segment List.mem_cons_self htakes⟩

/-- The characters of a segment that a pattern is held against. -/
theorem ascii_of_mem (hany : '?' ∈ pattern.toList → ∀ c ∈ path.toList, Ascii c)
    (ha : a ∈ patternSegments pattern) {segment : String} (hsegment : segment ∈ segments path)
    (hquestion : '?' ∈ a.toList) : ∀ c ∈ segment.toList, Ascii c := by
  intro c hc
  apply hany (mem_of_mem_patternSegments ha hquestion (by decide))
  apply (mem_segments _).1 ⟨segment, hsegment, hc⟩
  rintro rfl
  exact not_mem_of_mem_segments hsegment hc

theorem pathFits_of_pathMatches (hany : '?' ∈ pattern.toList → ∀ c ∈ path.toList, Ascii c)
    (h : pathMatches pattern path = true) : PathFits pattern path := by
  refine (pathMatches_iff.1 h).mono fun a ha block hblock => Spans.mono fun segment hsegment => ?_
  rw [← patternSegments_eq] at ha
  exact segmentFits_of_segmentMatches (ascii_of_mem hany ha (hblock hsegment))

theorem pathMatches_of_pathFits (hany : '?' ∈ pattern.toList → ∀ c ∈ path.toList, Ascii c)
    (hstar : ∀ a ∈ patternSegments pattern, a ≠ anySegments → '*' ∈ a.toList → '*' ∉ path.toList)
    (h : PathFits pattern path) : pathMatches pattern path = true := by
  refine pathMatches_iff.2 (h.mono fun a ha block hblock hspans => ?_)
  rw [← patternSegments_eq] at ha
  by_cases hspan : a = anySegments
  · rw [Spans, if_pos hspan]
    trivial
  · refine hspans.mono fun segment hsegment => ?_
    have hascii := ascii_of_mem hany ha (hblock hsegment)
    refine segmentMatches_of_segmentFits hascii fun hmem hother => ?_
    exact hstar a ha hspan hmem ((mem_segments (by decide)).1 ⟨segment, hblock hsegment, hother⟩)

end

/-- **A pattern finds what it says.** As long as no `?` is held against characters of several bytes,
    a pattern matches only paths that it fits; and all of these, if no segment of it with a star
    among other characters is held against a path with a star in it. -/
theorem matches_documented (pattern path : String)
    (hany : '?' ∈ pattern.toList → ∀ c ∈ path.toList, Ascii c) :
    (pathMatches pattern path = true → PathFits pattern path) ∧
    ((∀ a ∈ patternSegments pattern, a ≠ anySegments → '*' ∈ a.toList → '*' ∉ path.toList) →
      (pathMatches pattern path = true ↔ PathFits pattern path)) := by
  refine ⟨pathFits_of_pathMatches hany, fun hstar => ?_⟩
  exact ⟨pathFits_of_pathMatches hany, pathMatches_of_pathFits hany hstar⟩

theorem matches_documented_spanned :
    ('?' ∈ "sun/**/V?*".toList → ∀ c ∈ "sun/misc/VMs".toList, Ascii c) ∧
    pathMatches "sun/**/V?*" "sun/misc/VMs" = true := by
  have hascii : "sun/misc/VMs".toList.all (fun c => decide (Ascii c)) = true := by decide
  have hany : '?' ∈ "sun/**/V?*".toList → ∀ c ∈ "sun/misc/VMs".toList, Ascii c :=
    fun _ c hc => of_decide_eq_true (List.all_eq_true.1 hascii c hc)
  have hfits : PathFits "sun/**/V?*" "sun/misc/VMs" := by decide
  exact ⟨hany, ((matches_documented _ _ hany).2 (by decide)).2 hfits⟩

/-! ## What is missed -/

namespace Cursor
variable {α β : Type} {sy : Symbols α β} {pattern : Array α} {text : Array β} {c : Cursor}

/-- A cursor that took every item so far, and can take the next one, never looks for a star. -/
theorem run_eq_false {hc : c.InBounds sy pattern text}
    (htake : ∀ (i : Nat) a b, pattern[i]? = some a → text[i]? = some b → sy.move a b = .take)
    (hlonger : pattern.size < text.size) (hlevel : c.here.pattern = c.here.text)
    (hstar : c.star = none) : run sy pattern text c hc = false := by
  fun_induction run sy pattern text c hc with
  | case1 => rfl
  | case2 c hc ht d hd ih =>
    unfold step at hd
    split at hd
    · rw [retry, hstar] at hd
      cases hd
    · next a hsym =>
      have hitem := Array.getElem?_eq_getElem ht
      rw [htake _ _ _ hsym (hlevel.symm ▸ hitem)] at hd
      cases hd
      exact ih (congrArg (· + 1) hlevel) hstar
  | case3 c hc ht =>
    have := hc.pattern_le
    omega

end Cursor

/-- A segment that begins like the pattern and goes on is never found to match, stars or not: each
    byte of the pattern is the same as the one it is held against. -/
theorem segmentMatches_longer (pattern : String) {rest : String} (h : rest ≠ "") :
    segmentMatches pattern (pattern ++ rest) = false := by
  have hbytes : (pattern ++ rest).toUTF8.data = pattern.toUTF8.data ++ rest.toUTF8.data := by
    apply Array.toList_inj.1
    rw [Array.toList_append, toUTF8_eq, toUTF8_eq, toUTF8_eq, String.toList_append, utf8_append]
  have hrest : 0 < rest.toUTF8.data.size := by
    rw [← Array.length_toList, toUTF8_eq, List.length_pos_iff, ne_eq, utf8_eq_nil]
    simpa using h
  unfold segmentMatches
  rw [hbytes]
  apply Cursor.run_eq_false _ _ rfl rfl
  · intro i a b ha hb
    obtain rfl : a = b := by
      rw [Array.getElem?_append_left (Array.getElem?_eq_some_iff.1 ha).1, ha] at hb
      exact Option.some.inj hb
    exact if_pos (.inr rfl)
  · rw [Array.size_append]
    omega

section
variable {pattern path : String}

/-- A pattern and a path of one segment each. -/
structure OneSegment (pattern path : String) : Prop where
  notAll : pattern ≠ anySegments
  pattern_single : '/' ∉ pattern.toList
  path_single : '/' ∉ path.toList

theorem OneSegment.cuts_iff (h : OneSegment pattern path) {takes : String → String → Prop} :
    Cuts (Spans takes) (segments (spelledOut pattern)) (segments path) ↔ takes pattern path := by
  have hspelled : spelledOut pattern = pattern := by
    apply if_neg
    intro hlast
    exact h.pattern_single (List.mem_of_getLast? hlast)
  rw [hspelled, segments_eq_single h.pattern_single, segments_eq_single h.path_single, cuts_cons]
  constructor
  · rintro ⟨block, rest, hpath, hspans, hrest⟩
    rw [Spans, if_neg h.notAll] at hspans
    obtain ⟨segment, rfl, htakes⟩ := hspans
    obtain rfl := List.head_eq_of_cons_eq hpath
    exact htakes
  · intro htakes
    refine ⟨[path], [], rfl, ?_, cuts_nil.2 rfl⟩
    rw [Spans, if_neg h.notAll]
    exact ⟨path, rfl, htakes⟩

theorem OneSegment.pathMatches_eq (h : OneSegment pattern path) :
    pathMatches pattern path = segmentMatches pattern path := by
  rw [Bool.eq_iff_iff, pathMatches_iff, h.cuts_iff]

theorem OneSegment.pathFits_iff (h : OneSegment pattern path) :
    PathFits pattern path ↔ SegmentFits pattern path :=
  h.cuts_iff

/-- A star at the end of a pattern misses what begins like the pattern itself, star included. -/
theorem missed_by_star {rest : String} (h : OneSegment pattern (pattern ++ rest))
    (hstar : pattern.toList.getLast? = some '*') (hrest : rest ≠ "") :
    PathFits pattern (pattern ++ rest) ∧ pathMatches pattern (pattern ++ rest) = false := by
  rw [h.pathFits_iff, h.pathMatches_eq]
  refine ⟨?_, segmentMatches_longer pattern hrest⟩
  obtain ⟨front, hfront⟩ := List.getLast?_eq_some_iff.1 hstar
  rw [SegmentFits, String.toList_append, hfront]
  refine cuts_append.2 ⟨front, '*' :: rest.toList, by simp, ?_, ?_⟩
  · exact cuts_wild_self
  · exact cuts_cons.2 ⟨_, [], (List.append_nil _).symm, wild_star _ _, cuts_nil.2 rfl⟩

/-- A `?` misses every character of several bytes. -/
theorem missed_by_any {d : Char} (hd : ¬Ascii d) :
    PathFits "?" (String.singleton d) ∧ pathMatches "?" (String.singleton d) = false := by
  have hlist : (String.singleton d).toList = [d] := String.toList_singleton d
  have h : OneSegment "?" (String.singleton d) := by
    refine ⟨by decide, by decide, ?_⟩
    rw [hlist, List.mem_singleton]
    rintro rfl
    exact hd (by decide)
  rw [h.pathFits_iff, h.pathMatches_eq]
  constructor
  · rw [SegmentFits, hlist]
    exact cuts_cons.2 ⟨[d], [], rfl, (wild_any (by decide)).2 ⟨d, rfl⟩, cuts_nil.2 rfl⟩
  · rw [Bool.eq_false_iff]
    intro hmatches
    have hcuts := cuts_of_segmentMatches hmatches
    have hquestion : utf8 "?".toList = [anyByte] := by decide
    rw [hlist, utf8_single, hquestion] at hcuts
    have hlength := length_of_cuts (fun a ha block hblock => ?_) hcuts
    · rw [String.length_utf8EncodeChar] at hlength
      exact hd (utf8Size_eq_one.1 hlength)
    · rw [List.mem_singleton.1 ha, wild_any (by decide)] at hblock
      obtain ⟨b, rfl⟩ := hblock
      rfl

end

theorem matches_documented_missed :
    (PathFits "a*" "a*b" ∧ pathMatches "a*" "a*b" = false) ∧
    (PathFits "?" "é" ∧ pathMatches "?" "é" = false) := by
  have hstar : "a*b" = "a*" ++ "b" := by decide
  have hany : "é" = String.singleton 'é' := by decide
  rw [hstar, hany]
  exact ⟨missed_by_star ⟨by decide, by decide, by decide⟩ (by decide) (by decide),
    missed_by_any (by decide)⟩

end PlatformImage.Access
