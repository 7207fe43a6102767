import Mathlib.Data.List.Basic
import TextMacro.Proofs.DefinedStrings

/-!
# Segmenting a string and calling it

Segmenting a string by patterns makes them its parameters: a call of the string yields its text with
the arguments of the call in place of the patterns (`segment_expand`). What that means is said on
the text itself, in which a character that is still there is told apart from a text that has been
put in (`Part`): the patterns are taken in turn, and each is searched for among the characters that
are still there (`substituted`).

The search goes through bytes that hold marks already. The units behind a boundary in which it finds
a pattern are those in which the pattern stands leftmost (`Splits.not_prefix_of_find`), so that a
replacement is one in the list of units (`replaceFrom_eq_putFor`), and from there one in the list of
parts (`putFor_map`).
-/

namespace TextMacro

/-! ## Replacing in lists -/

section Lists

variable {α β : Type}

/-- A change of items under which those of a pattern are like no other shows where it stands. -/
theorem map_prefix_map_iff {pattern text : List α} {f : α → β}
    (hf : ∀ x ∈ pattern, ∀ y, f y = f x → y = x) :
    pattern.map f <+: text.map f ↔ pattern <+: text := by
  induction pattern generalizing text with
  | nil => simp
  | cons x pattern ih =>
    cases text with
    | nil => simp
    | cons y text =>
      have hx : f x = f y ↔ x = y :=
        ⟨fun heq => (hf x List.mem_cons_self y heq.symm).symm, congrArg f⟩
      have hrest : pattern.map f <+: text.map f ↔ pattern <+: text :=
        ih fun z hz => hf z (List.mem_cons_of_mem x hz)
      rw [List.map_cons, List.map_cons, List.cons_prefix_cons, List.cons_prefix_cons, hx, hrest]

variable [DecidableEq α]

/-- Puts `new` in place of the leftmost occurrences of a pattern that do not overlap, and counts
them. An empty pattern does not occur. -/
def putFor (pattern : List α) (new : α) : List α → List α × Nat
  | [] => ([], 0)
  | x :: rest =>
    if _h : pattern ≠ [] ∧ pattern <+: x :: rest then
      let (others, count) := putFor pattern new ((x :: rest).drop pattern.length)
      (new :: others, count + 1)
    else
      let (others, count) := putFor pattern new rest
      (x :: others, count)
termination_by text => text.length
decreasing_by
  · have := List.length_pos_iff.mpr _h.1
    simp
    omega
  · simp

variable {pattern : List α} {new x : α} {rest : List α}

/-- In an empty text nothing is replaced. -/
theorem putFor_nil (pattern : List α) (new : α) : putFor pattern new [] = ([], 0) := by
  rw [putFor]

/-- Where the pattern stands it is replaced, and the search goes on behind it. -/
theorem putFor_hit (hne : pattern ≠ []) (new : α) (rest : List α) :
    putFor pattern new (pattern ++ rest)
      = (new :: (putFor pattern new rest).1, (putFor pattern new rest).2 + 1) := by
  cases pattern with
  | nil => exact absurd rfl hne
  | cons p ps =>
    have hprefix : p :: ps <+: p :: (ps ++ rest) := ⟨rest, rfl⟩
    rw [List.cons_append, putFor, dif_pos ⟨hne, hprefix⟩]
    simp

/-- Where the pattern does not stand the text is kept. -/
theorem putFor_miss (h : ¬ (pattern ≠ [] ∧ pattern <+: x :: rest)) :
    putFor pattern new (x :: rest)
      = (x :: (putFor pattern new rest).1, (putFor pattern new rest).2) := by
  rw [putFor, dif_neg h]

/-- A stretch in which the pattern begins nowhere is kept. -/
theorem putFor_append {mid : List α} (h : ∀ front behind, mid = front ++ behind → behind ≠ [] →
    ¬ (pattern ≠ [] ∧ pattern <+: behind ++ rest)) :
    putFor pattern new (mid ++ rest)
      = (mid ++ (putFor pattern new rest).1, (putFor pattern new rest).2) := by
  induction mid with
  | nil => rfl
  | cons y mid ih =>
    have hmiss : ¬ (pattern ≠ [] ∧ pattern <+: y :: (mid ++ rest)) :=
      h [] (y :: mid) rfl (List.cons_ne_nil y mid)
    rw [List.cons_append, putFor_miss hmiss, ih fun front behind heq => ?_]
    · rfl
    · exact h (y :: front) behind (by rw [heq]; rfl)

/-- A pattern that begins nowhere leaves the text as it is. -/
theorem putFor_of_forall {text : List α} (h : ∀ front behind, text = front ++ behind →
    ¬ (pattern ≠ [] ∧ pattern <+: behind)) : putFor pattern new text = (text, 0) := by
  have hkept : putFor pattern new (text ++ [])
      = (text ++ (putFor pattern new []).1, (putFor pattern new []).2) :=
    putFor_append fun front behind heq _ => by simpa using h front behind heq
  simpa [putFor_nil] using hkept

/-- Without a replacement the text is as it was. -/
theorem putFor_of_count_eq_zero {text : List α} (h : (putFor pattern new text).2 = 0) :
    (putFor pattern new text).1 = text := by
  fun_induction putFor pattern new text with
  | case1 => rfl
  | case2 x rest hhit others count hothers ih => simp at h
  | case3 x rest hmiss others count hothers ih =>
    rw [hothers] at ih
    exact congrArg (x :: ·) (ih h)

/-- What is there afterwards was there before or has been put in. -/
theorem mem_of_mem_putFor {text : List α} {y : α} (h : y ∈ (putFor pattern new text).1) :
    y ∈ text ∨ y = new := by
  fun_induction putFor pattern new text with
  | case1 => simp at h
  | case2 x rest hhit others count hothers ih =>
    rw [hothers] at ih
    rcases List.mem_cons.mp h with hnew | hothers
    · exact .inr hnew
    · exact (ih hothers).imp_left List.mem_of_mem_drop
  | case3 x rest hmiss others count hothers ih =>
    rw [hothers] at ih
    rcases List.mem_cons.mp h with hx | hothers
    · exact .inl (hx ▸ List.mem_cons_self)
    · exact (ih hothers).imp_left (List.mem_cons_of_mem x)

/-- Such a change can be made before a replacement or after it. -/
theorem putFor_map [DecidableEq β] {f : α → β} (hf : ∀ x ∈ pattern, ∀ y, f y = f x → y = x)
    (text : List α) :
    putFor (pattern.map f) (f new) (text.map f)
      = ((putFor pattern new text).1.map f, (putFor pattern new text).2) := by
  fun_induction putFor pattern new text with
  | case1 => rw [List.map_nil, putFor_nil]
  | case2 x rest hhit others count hothers ih =>
    obtain ⟨hne, behind, hbehind⟩ := hhit
    rw [hothers, ← hbehind, List.drop_left] at ih
    rw [← hbehind, List.map_append, putFor_hit (by simpa using hne), ih]
    rfl
  | case3 x rest hmiss others count hothers ih =>
    have hmiss' : ¬ (pattern.map f ≠ [] ∧ pattern.map f <+: f x :: rest.map f) := by
      rintro ⟨hne, hprefix⟩
      exact hmiss ⟨by simpa using hne, (map_prefix_map_iff hf).mp hprefix⟩
    rw [hothers] at ih
    rw [List.map_cons, putFor_miss hmiss', ih]
    rfl

/-- What the items stand for stays the same if what is put in stands for the pattern. -/
theorem flatMap_putFor (g : α → List β) (hnew : g new = pattern.flatMap g) (text : List α) :
    (putFor pattern new text).1.flatMap g = text.flatMap g := by
  fun_induction putFor pattern new text with
  | case1 => rfl
  | case2 x rest hhit others count hothers ih =>
    rw [hothers] at ih
    obtain ⟨behind, hbehind⟩ := hhit.2
    rw [← hbehind, List.drop_left] at ih
    rw [← hbehind, List.flatMap_cons, List.flatMap_append, hnew, ih]
  | case3 x rest hmiss others count hothers ih =>
    rw [hothers] at ih
    rw [List.flatMap_cons, List.flatMap_cons, ih]

end Lists

/-! ## Replacing in bytes -/

namespace TextUnit

variable {b needle : ByteArray} {pos i : Nat}

/-- A search passes over no place where the needle stands. -/
theorem not_occursAt_of_findFrom (hfrom : pos ≤ i) (hin : i + needle.size ≤ b.size)
    (hbefore : ∀ hit, findFrom b needle pos = some hit → i < hit) :
    occursAt b needle i = false := by
  fun_induction findFrom b needle pos with
  | case1 pos hle hocc =>
    have hlt := hbefore pos rfl
    omega
  | case2 pos hle hocc ih =>
    rcases Nat.eq_or_lt_of_le hfrom with rfl | hlt
    · simpa using hocc
    · exact ih hlt hbefore
  | case3 pos hgt => omega

/-- A search for a needle that is not empty passes over no place where its bytes are. -/
theorem not_occurs_of_find (hne : 0 < needle.size) (hfrom : pos ≤ i)
    (hbefore : ∀ hit, find b needle pos = some hit → i < hit) :
    b.extract i (i + needle.size) ≠ needle := by
  intro hocc
  have hin : i + needle.size ≤ b.size := by
    have hsize := congrArg ByteArray.size hocc
    rw [ByteArray.size_extract] at hsize
    omega
  have hmiss := not_occursAt_of_findFrom hfrom hin (find_eq_findFrom hne b pos ▸ hbefore)
  rw [occursAt_iff.mpr hocc] at hmiss
  exact absurd hmiss.symm Bool.false_ne_true

/-- Units take at least one byte. -/
theorem size_encodeAll_pos {units : List TextUnit} (h : units ≠ []) :
    0 < (encodeAll units).size := by
  obtain ⟨u, rest, rfl⟩ := List.exists_cons_of_ne_nil h
  have hpos := u.width_pos
  rw [encodeAll_cons, ByteArray.size_append, size_encode]
  omega

variable {before after : List TextUnit} {text : String}

/-- Between units before the place where a text is found, it does not stand. -/
theorem Splits.not_prefix_of_find {front behind : List TextUnit}
    (h : Splits b pos before (front ++ behind))
    (hbefore : ∀ hit, find b text.toUTF8 pos = some hit → pos + (encodeAll front).size < hit) :
    ¬ (text.toList.map char ≠ [] ∧ text.toList.map char <+: behind) := by
  rintro ⟨hne, rest, rfl⟩
  have hbytes := toUTF8_eq_encodeAll text
  have hsome : 0 < text.toUTF8.size := by
    rw [hbytes]
    exact size_encodeAll_pos hne
  refine not_occurs_of_find hsome (Nat.le_add_right _ _) hbefore ?_
  rw [hbytes, h.skip.extract_mid]

end TextUnit

namespace Body

open TextUnit

variable {body : Body} {before after : List TextUnit}

/-- Replacing in the bytes is replacing in the units that follow the boundary. -/
theorem replaceFrom_eq_putFor {content : ByteArray} (pattern : String) (mark : TextUnit) {pos : Nat}
    (out : ByteArray) (count : Nat) (h : Splits content pos before after) :
    replaceFrom content pattern.toUTF8 mark.encode pos out count
      = (out ++ encodeAll (putFor (pattern.toList.map char) mark after).1,
        count + (putFor (pattern.toList.map char) mark after).2) := by
  fun_induction replaceFrom content pattern.toUTF8 mark.encode pos out count
    generalizing before after with
  | case1 pos out count hnone =>
    -- The pattern is not found again: it stands nowhere among the units that follow.
    have hkept : putFor (pattern.toList.map char) mark after = (after, 0) :=
      putFor_of_forall fun front behind heq =>
        (heq ▸ h).not_prefix_of_find fun hit hhit => by
          rw [hnone] at hhit
          cases hhit
    rw [hkept, h.extract_after]
    rfl
  | case2 pos out count hit hhit ih =>
    obtain ⟨mid, rest, rfl, rfl⟩ := h.of_find hhit
    have hsize := congrArg ByteArray.size (toUTF8_eq_encodeAll pattern)
    have hne : pattern.toList.map char ≠ [] := by
      intro heq
      rw [heq, encodeAll_nil, ByteArray.size_empty] at hsize
      have hpos := (find_bounds hhit).1
      omega
    have hnext := h.skip.skip
    rw [← hsize] at hnext
    -- Up to the place where it is found it does not stand.
    have hfree : ∀ front behind, mid = front ++ behind → behind ≠ [] →
        ¬ (pattern.toList.map char ≠ [] ∧
          pattern.toList.map char <+: behind ++ (pattern.toList.map char ++ rest)) := by
      rintro front behind rfl hbehind
      rw [List.append_assoc] at h
      refine h.not_prefix_of_find fun hit hhit' => ?_
      obtain rfl := Option.some.inj (hhit.symm.trans hhit')
      have hpos := size_encodeAll_pos hbehind
      rw [encodeAll_append, ByteArray.size_append]
      omega
    rw [ih hnext, putFor_append hfree, putFor_hit hne, h.extract_mid]
    simp [ByteArray.append_assoc]
    omega

/-- Replacing leaves what stands before the cursor alone, and the cursor where it is. -/
theorem replace_eq (body : Body) (pattern : String) (mark : TextUnit)
    (h : Splits body.text.content body.text.index before after) :
    ∃ replaced, body.replace pattern mark
        = ((putFor (pattern.toList.map char) mark after).2, replaced) ∧
      replaced.segments = body.segments ∧
      Splits replaced.text.content replaced.text.index before
        (putFor (pattern.toList.map char) mark after).1 := by
  obtain ⟨⟨content, index⟩, segments⟩ := body
  have hreplaced := replaceFrom_eq_putFor pattern mark (content.extract 0 index) 0 h
  unfold replace
  dsimp only
  rw [hreplaced, Nat.zero_add, h.extract_before]
  dsimp only
  split
  · rename_i hzero
    -- A body without the pattern is not written again.
    refine ⟨_, by rw [hzero], rfl, ?_⟩
    rw [putFor_of_count_eq_zero hzero]
    exact h
  · refine ⟨_, rfl, rfl, rfl, ?_⟩
    rw [ByteArray.size_append, ← h.pos_eq]
    exact Nat.min_eq_left (Nat.le_add_right _ _)

end Body

/-! ## Parameters -/

/-- What stands in a text in which some of the characters have been replaced. -/
inductive Part where
  /-- A character that is still there. -/
  | kept (c : Char)
  /-- A text that has been put in for others. -/
  | put (text : String)
  deriving DecidableEq

/-- The characters of a part. -/
def Part.chars : Part → List Char
  | kept c => [c]
  | put text => text.toList

/-- Characters that are all still there. -/
theorem Part.flatMap_kept (cs : List Char) : (cs.map kept).flatMap chars = cs := by
  simp [List.flatMap_map, chars]

/-- Puts for each pattern in turn the argument that belongs to it, or nothing if there is none, and
counts the replacements. A pattern stands only where all its characters are still there. -/
def substituted : List String → List String → List Part → List Part × Nat
  | [], _, parts => (parts, 0)
  | pattern :: patterns, args, parts =>
    let (parts, count) := putFor (pattern.toList.map .kept) (.put (args.headD "")) parts
    let (parts, others) := substituted patterns args.tail parts
    (parts, count + others)

/-- Patterns that are replaced by themselves leave the text as it is. -/
theorem substituted_self {patterns args : List String} (h : patterns <+: args) (parts : List Part) :
    (substituted patterns args parts).1.flatMap Part.chars = parts.flatMap Part.chars := by
  induction patterns generalizing args parts with
  | nil => rfl
  | cons pattern patterns ih =>
    obtain ⟨others, rfl⟩ := h
    have hpattern : (Part.put pattern).chars = (pattern.toList.map .kept).flatMap Part.chars :=
      (Part.flatMap_kept pattern.toList).symm
    unfold substituted
    dsimp only
    rw [List.cons_append, List.headD_cons, List.tail_cons, ih (List.prefix_append _ _),
      flatMap_putFor Part.chars hpattern]

/-- What a unit becomes in a call with the arguments `args` behind its name. -/
def TextUnit.part (args : List String) : TextUnit → Part
  | char c => .kept c
  | segment slot => .put (args.getD slot.val "")
  | creation => .put ""

namespace TextUnit

/-- Characters are still there in a call. -/
theorem map_part_char (args : List String) (cs : List Char) :
    (cs.map char).map (·.part args) = cs.map .kept := by
  rw [List.map_map]
  rfl

/-- Only a character becomes one that is still there. -/
theorem eq_char_of_part {args : List String} {c : Char} {u : TextUnit}
    (h : u.part args = (char c).part args) : u = char c := by
  cases u with
  | char d => simpa [part] using h
  | segment slot => simp [part] at h
  | creation => simp [part] at h

/-- A mark put in the units is what it becomes put in the parts. -/
theorem putFor_part (pattern : String) (mark : TextUnit) (args : List String)
    (units : List TextUnit) :
    putFor (pattern.toList.map .kept) (mark.part args) (units.map (·.part args))
      = ((putFor (pattern.toList.map char) mark units).1.map (·.part args),
        (putFor (pattern.toList.map char) mark units).2) := by
  rw [← map_part_char args]
  refine putFor_map (f := fun u => u.part args) (fun x hx y heq => ?_) units
  obtain ⟨c, -, rfl⟩ := List.mem_map.mp hx
  exact eq_char_of_part heq

/-- The segment marks become the arguments in turn. -/
theorem exists_segment? {n : Nat} (h : n < segmentLimit) (args : List String) :
    ∃ mark, segment? (n + 1) = some mark ∧ mark ≠ creation ∧
      mark.part args = .put ((args.drop n).headD "") := by
  refine ⟨segment ⟨n, h⟩, ?_, by simp, ?_⟩
  · unfold segment?
    rw [dif_pos ⟨Nat.le_add_left 1 n, h⟩]
    rfl
  · simp [part, List.getD_eq_getElem?_getD, List.headD_eq_head?_getD]

/-- What the parts are made of is what an expansion fills in. -/
theorem flatMap_filled_eq {units : List TextUnit} (args : List String) (token : String)
    (h : .creation ∉ units) :
    units.flatMap (·.filled args token) = (units.map (·.part args)).flatMap Part.chars := by
  rw [List.flatMap_map]
  refine List.flatMap_congr fun u hu => ?_
  cases u with
  | char c => rfl
  | segment slot => rfl
  | creation => exact absurd hu h

end TextUnit

namespace Body

open TextUnit

variable {body : Body} {before after : List TextUnit}

/-- Segmenting puts the marks where a call puts its arguments: the marks given out so far stand for
as many arguments, and the patterns get those that follow. -/
theorem segmentFrom_eq (name : String) (args patterns : List String) (count : Nat)
    (h : Splits body.text.content body.text.index before after) (hcreation : .creation ∉ after)
    (hfew : body.segments + patterns.length ≤ segmentLimit) :
    ∃ segmented marked, body.segmentFrom name count patterns
        = (.ok (count
          + (substituted patterns (args.drop body.segments) (after.map (·.part args))).2),
          segmented) ∧
      Splits segmented.text.content segmented.text.index before marked ∧ .creation ∉ marked ∧
      marked.map (·.part args)
        = (substituted patterns (args.drop body.segments) (after.map (·.part args))).1 := by
  induction patterns generalizing body after count with
  | nil => exact ⟨body, after, rfl, h, hcreation, rfl⟩
  | cons pattern patterns ih =>
    rw [List.length_cons] at hfew
    have hleft : body.segments < segmentLimit := by omega
    -- The mark for the pattern stands for the argument behind those that have a mark already.
    obtain ⟨mark, hmark, hnot, hpart⟩ := exists_segment? hleft args
    obtain ⟨replaced, hreplace, hsame, hsplits⟩ :=
      replace_eq { body with segments := body.segments + 1 } pattern mark h
    have hsegments : replaced.segments = body.segments + 1 := hsame
    have hput := putFor_part pattern mark args after
    rw [hpart] at hput
    have hcreation' : .creation ∉ (putFor (pattern.toList.map char) mark after).1 := by
      intro hmem
      rcases mem_of_mem_putFor hmem with hold | hnew
      · exact hcreation hold
      · exact hnot hnew.symm
    obtain ⟨segmented, marked, hsegment, hmarked, hnone, hparts⟩ :=
      ih (count + (putFor (pattern.toList.map char) mark after).2) hsplits hcreation'
        (by rw [hsegments]; omega)
    rw [hsegments] at hsegment hparts
    have hsubstituted : substituted (pattern :: patterns) (args.drop body.segments)
          (after.map (·.part args))
        = ((substituted patterns (args.drop (body.segments + 1))
            ((putFor (pattern.toList.map char) mark after).1.map (·.part args))).1,
          (putFor (pattern.toList.map char) mark after).2
            + (substituted patterns (args.drop (body.segments + 1))
              ((putFor (pattern.toList.map char) mark after).1.map (·.part args))).2) := by
      rw [substituted, hput, List.tail_drop]
    refine ⟨segmented, marked, ?_, hmarked, hnone, by rw [hsubstituted, hparts]⟩
    rw [segmentFrom, hmark]
    dsimp only
    rw [hreplace, hsubstituted]
    dsimp only
    rw [hsegment, Nat.add_assoc]

/-- A new string of which a part at the start has been read. -/
def readPast (before after : String) : Body :=
  { ofString (before ++ after) with
    text := (Buffer.ofString (before ++ after)).setIndex before.utf8ByteSize }

/-- The cursor is between two characters. -/
theorem splits_readPast (before after : String) :
    Splits (readPast before after).text.content (readPast before after).text.index
      (before.toList.map char) (after.toList.map char) := by
  have hsize : before.toUTF8.size = before.utf8ByteSize := String.size_toByteArray
  have hbytes : (before ++ after).toUTF8 = before.toUTF8 ++ after.toUTF8 := by
    simp
  refine ⟨?_, ?_⟩
  · rw [← toUTF8_eq_encodeAll, ← toUTF8_eq_encodeAll, ← hbytes]
    rfl
  · show min before.utf8ByteSize (before ++ after).toUTF8.size = _
    rw [hbytes, ← toUTF8_eq_encodeAll, ByteArray.size_append, hsize]
    exact Nat.min_eq_left (Nat.le_add_right _ _)

/-- A string that has been segmented by patterns takes them for its parameters: a call yields its
text with the arguments in place of the patterns, in which each pattern has been searched for from
the cursor on among the characters that are still there. Segmenting counts the replacements, and a
call with the patterns themselves for its arguments yields the text as it was. -/
theorem segment_expand (name before after : String) (patterns : List String) (f : Frame)
    (hfew : patterns.length ≤ segmentLimit) :
    ∃ segmented, (readPast before after).segment name patterns
        = (.ok (substituted patterns f.rest (after.toList.map .kept)).2, segmented) ∧
      (∀ s, Action.expand segmented f s = .ok (before ++ String.ofList
        ((substituted patterns f.rest (after.toList.map .kept)).1.flatMap Part.chars)) s) ∧
      (patterns <+: f.rest → ∀ s, Action.expand segmented f s = .ok (before ++ after) s) := by
  obtain ⟨segmented, marked, hsegment, hmarked, hnone, hparts⟩ :=
    segmentFrom_eq name f.rest patterns 0 (splits_readPast before after) (by simp)
      (by simpa [readPast, ofString] using hfew)
  have hzero : f.rest.drop (readPast before after).segments = f.rest := List.drop_zero
  rw [map_part_char, hzero] at hparts
  rw [map_part_char, hzero, Nat.zero_add] at hsegment
  have hunused : .creation ∉ before.toList.map char ++ marked := by
    simpa using hnone
  have hexpand : ∀ s, Action.expand segmented f s = .ok (before ++ String.ofList
      ((substituted patterns f.rest (after.toList.map .kept)).1.flatMap Part.chars)) s := by
    intro s
    unfold Action.expand Body.expand
    rw [expandFrom_eq f (token (s.creations + 1)) false "" hmarked.start,
      flatMap_filled_eq f.rest _ hunused, List.map_append, hparts, List.flatMap_append,
      map_part_char, Part.flatMap_kept, decide_eq_false hunused]
    simp
  refine ⟨segmented, hsegment, hexpand, fun hself s => ?_⟩
  rw [hexpand s, substituted_self hself, Part.flatMap_kept, String.ofList_toList]

/-- The parameters `ab`, none, `b` and `c` of the string `abcabcb`, whose first character has been
read, in a call with three arguments. Neither what has been read nor the argument put in for `ab` is
searched for `b`, and the fourth parameter gets nothing. -/
theorem segment_expand_overlapping :
    ["ab", "", "b", "c"].length ≤ segmentLimit ∧
    ∃ segmented, (readPast "a" "bcabcb").segment "f" ["ab", "", "b", "c"] = (.ok 5, segmented) ∧
      ∀ s, Action.expand segmented ⟨["f", "bb", "x", "y"], true⟩ s = .ok "aybby" s := by
  have hfew : ["ab", "", "b", "c"].length ≤ segmentLimit := by decide
  have hsubstituted : substituted ["ab", "", "b", "c"] ["bb", "x", "y"] ("bcabcb".toList.map .kept)
      = ([.put "y", .put "", .put "bb", .put "", .put "y"], 5) := by
    simp [substituted, putFor]
  obtain ⟨segmented, hsegment, hexpand, -⟩ :=
    segment_expand "f" "a" "bcabcb" ["ab", "", "b", "c"] ⟨["f", "bb", "x", "y"], true⟩ hfew
  have hrest : Frame.rest ⟨["f", "bb", "x", "y"], true⟩ = ["bb", "x", "y"] := rfl
  rw [hrest, hsubstituted] at hsegment hexpand
  exact ⟨hfew, segmented, hsegment, hexpand⟩

end Body

end TextMacro
