import ErSdk.StringObjects

namespace ErSdk.StringReplace

open CStrings StringObjects Error

def Granted (supply : Supply) : Prop := ∀ i, (supply i).isSome

theorem rebuild_replaces (block front word back rest new : List UInt8) (hnul : 0 ∉ front ++ (word ++ back))
    (hblock : block.length = front.length + new.length + back.length + 1) :
    rebuild block (front ++ (word ++ (back ++ 0 :: rest))) front.length word new =
      some (front ++ (new ++ (back ++ [0]))) := by
  have hold : front ++ (word ++ (back ++ 0 :: rest)) = (front ++ (word ++ back)) ++ 0 :: rest := by simp
  have hc : cStringAt (front ++ (word ++ (back ++ 0 :: rest))) 0 =
      some (front ++ (word ++ back)) := by
    rw [hold]
    exact cStringAt_append [] hnul rest
  have hfirst : writeAt block 0 front = some (front ++ block.drop front.length) :=
    writeAt_append [] block front rfl (by omega)
  have hsecond : writeAt (front ++ block.drop front.length) front.length new =
      some (front ++ new ++ block.drop (front.length + new.length)) := by
    rw [writeAt_append _ _ _ rfl (by rw [List.length_drop]; omega), List.drop_drop]
  have hthird : writeAt (front ++ new ++ block.drop (front.length + new.length))
      (front.length + new.length) back = some (front ++ new ++ back ++
        block.drop (front.length + new.length + back.length)) := by
    rw [writeAt_append _ _ _ (by rw [List.length_append]) (by rw [List.length_drop]; omega),
      List.drop_drop]
  have hfourth : writeAt (front ++ new ++ back ++ block.drop (front.length + new.length + back.length))
      (front.length + new.length + back.length) [0] = some (front ++ new ++ back ++ [0]) := by
    rw [writeAt_append _ _ _ (by simp only [List.length_append]) (by rw [List.length_drop, hblock]; simp),
      List.drop_drop, List.drop_eq_nil_of_le (by rw [hblock]; simp), List.append_nil]
  have hlength : (front ++ (word ++ back)).length - word.length + new.length =
      front.length + new.length + back.length := by
    simp only [List.length_append]
    omega
  have hback : ((front ++ (word ++ (back ++ 0 :: rest))).drop (front.length + word.length)).take
      ((front ++ (word ++ back)).length - word.length - front.length) = back := by
    have hcount : (front ++ (word ++ back)).length - word.length - front.length = back.length := by
      simp only [List.length_append]
      omega
    rw [hcount, List.drop_append, List.drop_eq_nil_of_le (by omega), List.nil_append,
      Nat.add_sub_cancel_left, List.drop_left, List.take_left]
  unfold rebuild
  rw [hc]
  simp only [Option.bind_eq_bind, Option.bind_some]
  rw [List.take_left, hfirst, Option.bind_some, hsecond, Option.bind_some, hback, hthird,
    Option.bind_some, hlength, hfourth]
  simp

section

variable {word new : CText} {supply : Supply} {str : StringClass}

theorem replaceLoop_end {front text : List UInt8} (h : Valid str (front ++ text))
    (hnul : 0 ∉ front ++ text) (hfind : strstr word.text text = none) (libcHeap : Bool)
    (fuel asked : Nat) : replaceLoop libcHeap word.text new.text supply (fuel + 1) str front.length asked =
      .ok (errSuccess, str, asked) := by
  obtain ⟨-, rest, hb, -⟩ := valid_iff.mp h
  have hread : cStringAt (front ++ text ++ 0 :: rest) front.length = some text := by
    rw [List.append_assoc]
    exact cStringAt_append front (fun hm => hnul (List.mem_append_right _ hm)) rest
  unfold replaceLoop
  simp only [hb, hread, Option.map_some, hfind]

variable (new) in
/-- A round that finds an occurrence: the object has the new text, and the search goes on behind
the replacement, unless the old block is not one of the C library. -/
theorem replaceLoop_round {front before behind : List UInt8}
    (h : Valid str (front ++ (before ++ (word.text ++ behind))))
    (hnul : 0 ∉ front ++ (before ++ (word.text ++ behind)))
    (hfind : strstr word.text (before ++ (word.text ++ behind)) = some before.length)
    {asked : Nat} (hgranted : (supply asked).isSome) : ∃ str',
      Valid str' (front ++ before ++ new.text ++ behind) ∧ str'.fixedSize = str.fixedSize ∧
        ∀ libcHeap fuel, replaceLoop libcHeap word.text new.text supply (fuel + 1) str front.length
          asked = if libcHeap then replaceLoop libcHeap word.text new.text supply fuel str'
            (front ++ before ++ new.text).length (asked + 1) else .error (.undefined, asked + 1) := by
  obtain ⟨hsize, rest, hb, -⟩ := valid_iff.mp h
  have hread : cStringAt (front ++ (before ++ (word.text ++ behind)) ++ 0 :: rest) front.length =
      some (before ++ (word.text ++ behind)) := by
    rw [List.append_assoc]
    exact cStringAt_append front (fun hm => hnul (List.mem_append_right _ hm)) rest
  have hnew : (str.size : Int) - word.text.length + new.text.length =
      ((front ++ before ++ new.text ++ behind).length : Nat) := by
    rw [hsize]
    simp only [List.length_append]
    omega
  obtain ⟨block, hblock, hlen⟩ := malloc_granted
    (((front ++ before ++ new.text ++ behind).length : Nat) + 1) (by omega) hgranted
  have hold : front ++ (before ++ (word.text ++ behind)) ++ 0 :: rest =
      (front ++ before) ++ (word.text ++ (behind ++ 0 :: rest)) := by simp
  have hbuilt := rebuild_replaces block (front ++ before) word.text behind rest new.text
    (by rw [← List.append_assoc] at hnul; exact hnul)
    (by rw [hlen]; simp only [List.length_append]; omega)
  rw [← hold, List.length_append] at hbuilt
  refine ⟨{ str with
    buffer := some (front ++ before ++ (new.text ++ (behind ++ [0])))
    size := (front ++ before ++ new.text ++ behind).length
    bufsize := (front ++ before ++ new.text ++ behind).length + 1 },
    valid_iff.mpr ⟨rfl, [], by simp, rfl⟩, rfl, fun libcHeap fuel => ?_⟩
  conv => lhs; unfold replaceLoop
  simp only [hb, hread, Option.map_some, hfind, hnew, hblock, hbuilt, Int.toNat_natCast]
  simp only [List.length_append]

variable (new) in
theorem replaceLoop_replaces (hword : word.text ≠ []) (hgranted : Granted supply) {fuel : Nat}
    {front text : List UInt8} (asked : Nat) (h : Valid str (front ++ text)) (hnul : 0 ∉ front ++ text)
    (hfuel : text.length < fuel) : ∃ str' asked',
      replaceLoop true word.text new.text supply fuel str front.length asked =
        .ok (errSuccess, str', asked') ∧
      Valid str' (front ++ replaceAll word.text new.text text) ∧ str'.fixedSize = str.fixedSize := by
  induction fuel generalizing str front text asked with
  | zero => exact absurd hfuel (Nat.not_lt_zero _)
  | succ fuel ih =>
      rw [replaceAll_eq hword]
      cases hfind : strstr word.text text with
      | none => exact ⟨str, asked, replaceLoop_end h hnul hfind true fuel asked, h, rfl⟩
      | some i =>
          obtain ⟨hsplit, hle⟩ := strstr_split hfind
          have hpos : 0 < word.text.length := List.length_pos_iff.mpr hword
          have hi : (text.take i).length = i := by
            rw [List.length_take]
            omega
          dsimp only
          generalize text.take i = before at hsplit hi ⊢
          generalize text.drop (i + word.text.length) = behind at hsplit ⊢
          subst hsplit
          subst hi
          obtain ⟨str₁, hvalid, hfixed₁, hround⟩ :=
            replaceLoop_round new h hnul hfind (hgranted asked)
          have hfree : 0 ∉ front ++ before ++ new.text ++ behind := by
            intro hm
            have hno := new.noNul
            simp only [List.mem_append] at hm hnul
            tauto
          obtain ⟨str', asked', hloop, hend, hfixed⟩ := ih (asked + 1) hvalid hfree (by
            simp only [List.length_append] at hfuel
            omega)
          refine ⟨str', asked', ?_, ?_, hfixed.trans hfixed₁⟩
          · rw [hround, if_pos rfl]
            exact hloop
          · simpa only [List.append_assoc] using hend

theorem replaceLoop_endless (hword : word.text = []) (hgranted : Granted supply) (libcHeap : Bool)
    (fuel head asked : Nat) (r : Int × StringClass × Nat) :
    replaceLoop libcHeap word.text new.text supply fuel str head asked ≠ .ok r := by
  induction fuel generalizing str head asked with
  | zero => exact nofun
  | succ fuel ih =>
      unfold replaceLoop
      cases hb : str.buffer with
      | none => exact nofun
      | some oldstr =>
          dsimp only
          cases hread : cStringAt oldstr head with
          | none => exact nofun
          | some text =>
              have hfind : strstr word.text text = some 0 := by
                rw [hword]
                exact strstr_prefixed (List.nil_prefix)
              obtain ⟨block, hblock, -⟩ := malloc_granted
                (str.size - word.text.length + new.text.length + 1)
                (by rw [hword, List.length_nil]; omega) (hgranted asked)
              rw [Option.map_some, hfind]
              dsimp only
              rw [hblock]
              dsimp only
              cases rebuild block oldstr (head + 0) word.text new.text with
              | none => exact nofun
              | some buffer =>
                  dsimp only
                  split
                  · exact ih _ _
                  · exact nofun

end

/-- The last write of a round is inside of the new block only if the size that it was allocated by
is at least the length of the C string. -/
theorem rebuild_fits {block oldstr buffer text word new : List UInt8} {tok : Nat}
    (hread : cStringAt oldstr 0 = some text) (hword : word.length ≤ text.length)
    (h : rebuild block oldstr tok word new = some buffer) :
    text.length + new.length + 1 ≤ block.length + word.length := by
  unfold rebuild at h
  rw [hread] at h
  simp only [Option.bind_eq_bind, Option.bind_some] at h
  obtain ⟨b₁, h₁, h⟩ := Option.bind_eq_some_iff.mp h
  obtain ⟨b₂, h₂, h⟩ := Option.bind_eq_some_iff.mp h
  obtain ⟨b₃, h₃, h⟩ := Option.bind_eq_some_iff.mp h
  have hlast := (length_writeAt h).1
  rw [(length_writeAt h₃).2, (length_writeAt h₂).2, (length_writeAt h₁).2, List.length_singleton] at hlast
  omega

/-- The C string in the buffer begins with the content, and is the content if the terminator is
where it should be. -/
theorem sized_split {str : StringClass} {content : List UInt8} (h : Sized str content)
    (hnul : 0 ∉ content) : ∃ text rest, str.buffer = some (text ++ 0 :: rest) ∧ 0 ∉ text ∧
      stringGetCstring str = some text ∧ content <+: text ∧
        (text.length ≤ str.size → Valid str content) := by
  obtain ⟨block, hb, hlen, hsize, hcontent, hmem⟩ := h
  obtain ⟨text, rest, rfl, hno, hread⟩ := cStringAt_zero hmem
  have hle : str.size ≤ text.length := by
    by_contra hlt
    refine hnul (hcontent ▸ ?_)
    rw [List.take_append, List.take_of_length_le (by omega), List.mem_append,
      show str.size - text.length = str.size - text.length - 1 + 1 by omega, List.take_succ_cons]
    exact .inr List.mem_cons_self
  rw [List.take_append_of_le_length hle] at hcontent
  refine ⟨text, rest, hb, hno, by unfold stringGetCstring; rw [hb]; exact hread,
    hcontent ▸ List.take_prefix _ _, fun hge => ?_⟩
  have heq : str.size = text.length := Nat.le_antisymm hle hge
  rw [heq, List.take_length] at hcontent
  subst hcontent
  refine valid_iff.mpr ⟨heq, rest, hb, ?_⟩
  rw [← hlen, List.length_append, List.length_cons]
  omega

/-- What string_replace is asked for: nothing for an empty substring. -/
def replaced (substr replacement content : List UInt8) : List UInt8 :=
  if substr = [] then content else replaceAll substr replacement content

/-- The call ends, with the object that has every occurrence replaced. -/
def Replaces (libcHeap : Bool) (str : StringClass) (content : List UInt8) (substr replacement : CText)
    (supply : Supply) : Prop :=
  ∃ fuel str' asked, stringReplace libcHeap fuel str (some substr) (some replacement) supply =
      .ok (errSuccess, str', asked) ∧
    Sized str' (replaced substr.text replacement.text content) ∧
      (Valid str content → Valid str' (replaced substr.text replacement.text content))

/-- string_replace does what it is asked for just when the substring is not empty and, if it
occurs, the buffer has its terminator and `free` can take it. -/
theorem replaces_iff {str : StringClass} {content : List UInt8} (h : Sized str content)
    (hnul : 0 ∉ content) (substr replacement : CText) {supply : Supply} (hgranted : Granted supply)
    (libcHeap : Bool) : Replaces libcHeap str content substr replacement supply ↔
      substr.text ≠ [] ∧ ∀ text, stringGetCstring str = some text → substr.text <:+: text →
        libcHeap = true ∧ Valid str content := by
  obtain ⟨text, rest, hb, hno, hget, hprefix, hvalid⟩ := sized_split h hnul
  have hread : cStringAt (text ++ 0 :: rest) 0 = some text := cStringAt_append [] hno rest
  constructor
  · rintro ⟨fuel, str', asked, hrun, -, -⟩
    have hword : substr.text ≠ [] := fun he => replaceLoop_endless he hgranted libcHeap fuel 0 0 _ hrun
    refine ⟨hword, fun text' htext' hoccurs => ?_⟩
    obtain rfl : text = text' := Option.some.inj (hget.symm.trans htext')
    cases fuel with
    | zero => exact absurd hrun nofun
    | succ fuel =>
        obtain ⟨i, hfind⟩ : ∃ i, strstr substr.text text = some i :=
          Option.ne_none_iff_exists'.mp (fun hn => strstr_none_iff.mp hn hoccurs)
        have hle := (strstr_split hfind).2
        unfold stringReplace replaceLoop at hrun
        simp only [hb, hread, Option.map_some, hfind] at hrun
        split at hrun
        · obtain ⟨hcode, -⟩ := Prod.mk.inj (Except.ok.inj hrun)
          exact absurd hcode (by decide)
        · rename_i block hblock
          split at hrun
          · exact absurd hrun nofun
          · rename_i buffer hbuilt
            obtain ⟨hsize, hlen⟩ := length_malloc hblock
            have hfits := rebuild_fits hread (by omega) hbuilt
            have hv : Valid str content := hvalid (by omega)
            split at hrun
            · rename_i hlibc
              exact ⟨hlibc, hv⟩
            · exact absurd hrun nofun
  · rintro ⟨hword, hall⟩
    unfold Replaces replaced
    rw [if_neg hword]
    by_cases hoccurs : substr.text <:+: text
    · obtain ⟨rfl, hv⟩ := hall text hget hoccurs
      obtain ⟨str', asked, hrun, hend, -⟩ := replaceLoop_replaces replacement
        hword hgranted 0 (show Valid str ([] ++ content) from hv) hnul (Nat.lt_succ_self _)
      exact ⟨content.length + 1, str', asked, hrun, hend.sized, fun _ => hend⟩
    · have hsame : replaceAll substr.text replacement.text content = content := by
        rw [replaceAll_eq hword, strstr_none_iff.mpr (fun hin => hoccurs (hin.trans hprefix.isInfix))]
      rw [hsame]
      refine ⟨1, str, 0, ?_, h, id⟩
      unfold stringReplace replaceLoop
      simp only [hb, hread, Option.map_some, strstr_none_iff.mpr hoccurs]

def abab : StringClass := ⟨some (filled (bytes "abab") (newBlock 261 (fun _ => 0))), 4, 261, false⟩

theorem valid_abab : Valid abab (bytes "abab") :=
  valid_filled (length_newBlock 261 _) (by decide) false

/-- Both occurrences of `ab` become `aab`, which is not searched again. -/
theorem replaces_iff_twice : Replaces true abab (bytes "abab") ⟨bytes "ab", by decide⟩
    ⟨bytes "aab", by decide⟩ (fun _ => some (fun _ => 7)) :=
  (replaces_iff valid_abab.sized (by decide) ⟨bytes "ab", by decide⟩ ⟨bytes "aab", by decide⟩
    (fun _ => rfl) true).mpr ⟨by decide, fun _ _ _ => ⟨rfl, valid_abab⟩⟩

/-- The search for the empty string never comes to an end. -/
theorem empty_endless : ¬ Replaces true abab (bytes "abab") ⟨[], by decide⟩ ⟨bytes "x", by decide⟩
    (fun _ => some (fun _ => 7)) :=
  fun ⟨fuel, _, _, hrun, _⟩ => replaceLoop_endless rfl (fun _ => rfl) true fuel 0 0 _ hrun

inductive Call
  | catcn (newChunk : List UInt8)
  | catc (str2 : CText)
  | cat (str2 : StringClass)
  | replace (substr replacement : Option CText)

def Call.run (libcHeap : Bool) (fuel : Nat) (str : StringClass) (supply : Supply) : Call → Outcome
  | .catcn newChunk => stringCatcn str newChunk supply
  | .catc str2 => stringCatc str str2 supply
  | .cat str2 => stringCat str str2 supply
  | .replace substr replacement => stringReplace libcHeap fuel str substr replacement supply

theorem allocations_append (str : StringClass) (newChunk : List UInt8) (asked : Nat) :
    allocations (append str newChunk asked) = asked := by
  unfold append
  split <;> rfl

theorem stringCatcn_failed {str : StringClass} {newChunk : List UInt8} {supply : Supply} {i : Nat}
    (hi : i < allocations (stringCatcn str newChunk supply)) (hnone : supply i = none) :
    stringCatcn str newChunk supply = .ok (errNoMemory, str, 1) := by
  unfold stringCatcn at hi ⊢
  split at hi
  · exact absurd hi (Nat.not_lt_zero i)
  · rename_i hsome
    rw [if_neg hsome]
    split at hi
    · exact absurd hi (Nat.not_lt_zero i)
    · rename_i hfixed
      rw [if_neg hfixed]
      split at hi
      · rename_i hgrows
        rw [if_pos hgrows]
        split at hi
        · rfl
        · rename_i hblock
          rw [allocations_append] at hi
          obtain rfl : i = 0 := by omega
          rw [hnone] at hblock
          exact absurd hblock nofun
      · rw [allocations_append] at hi
        exact absurd hi (Nat.not_lt_zero i)

theorem replaceLoop_failed {libcHeap : Bool} {substr replacement : List UInt8} {supply : Supply}
    {fuel head asked i : Nat} {str : StringClass} (hle : asked ≤ i)
    (hi : i < allocations (replaceLoop libcHeap substr replacement supply fuel str head asked))
    (hnone : supply i = none) : ∃ str', replaceLoop libcHeap substr replacement supply fuel str head
      asked = .ok (errNoMemory, str', i + 1) ∧ str'.buffer = none := by
  induction fuel generalizing str head asked with
  | zero => exact absurd hi (Nat.not_lt_of_le hle)
  | succ fuel ih =>
      unfold replaceLoop at hi ⊢
      split at hi
      · exact absurd hi (Nat.not_lt_of_le hle)
      · split at hi
        · exact absurd hi (Nat.not_lt_of_le hle)
        · exact absurd hi (Nat.not_lt_of_le hle)
        · dsimp only at hi ⊢
          split at hi
          · obtain rfl : i = asked := Nat.le_antisymm (Nat.le_of_lt_succ hi) hle
            exact ⟨_, rfl, rfl⟩
          · rename_i block hblock
            -- the allocation of this round was granted
            have hlt : asked + 1 ≤ i := by
              refine Nat.lt_of_le_of_ne hle (fun heq => ?_)
              subst heq
              rw [hnone, malloc_none] at hblock
              exact absurd hblock nofun
            split at hi
            · exact absurd hi (Nat.not_lt_of_le hlt)
            · split at hi
              · rename_i hlibc
                rw [if_pos hlibc]
                exact ih hlt hi
              · exact absurd hi (Nat.not_lt_of_le hlt)

theorem replaceLoop_buffer {libcHeap : Bool} {substr replacement : List UInt8} {supply : Supply}
    {fuel head asked : Nat} {str : StringClass} {r : Int × StringClass × Nat}
    (h : replaceLoop libcHeap substr replacement supply fuel str head asked = .ok r) :
    str.buffer ≠ none := by
  intro hb
  cases fuel with
  | zero => exact absurd h nofun
  | succ fuel =>
      unfold replaceLoop at h
      rw [hb] at h
      exact absurd h nofun

/-- A call in which an allocation fails returns ERR_NO_MEMORY and leaves the object as it was,
just when it is a concatenation. -/
theorem failed_unchanged_iff {call : Call} {libcHeap : Bool} {fuel : Nat} {str : StringClass}
    {supply : Supply} {i : Nat} (hi : i < allocations (call.run libcHeap fuel str supply))
    (hnone : supply i = none) :
    (∃ asked, call.run libcHeap fuel str supply = .ok (errNoMemory, str, asked)) ↔
      ∀ substr replacement, call ≠ .replace substr replacement := by
  cases call with
  | catcn newChunk => exact iff_of_true ⟨1, stringCatcn_failed hi hnone⟩ (fun _ _ => nofun)
  | catc str2 => exact iff_of_true ⟨1, stringCatcn_failed hi hnone⟩ (fun _ _ => nofun)
  | cat str2 =>
      refine iff_of_true ⟨1, ?_⟩ (fun _ _ => nofun)
      unfold Call.run stringCat at hi ⊢
      dsimp only at hi ⊢
      split at hi
      · split at hi
        · rename_i hempty
          rw [if_pos hempty]
          exact stringCatcn_failed hi hnone
        · exact absurd hi (Nat.not_lt_zero i)
      · split at hi
        · rename_i hinside
          rw [if_pos hinside]
          exact stringCatcn_failed hi hnone
        · exact absurd hi (Nat.not_lt_zero i)
  | replace substr replacement =>
      refine iff_of_false ?_ (fun hall => hall substr replacement rfl)
      rintro ⟨asked, h⟩
      unfold Call.run stringReplace at hi h
      dsimp only at hi h
      split at hi
      · obtain ⟨str', hrun, hbuffer⟩ := replaceLoop_failed (Nat.zero_le i) hi hnone
        have hsame : str' = str := (Prod.mk.inj (Prod.mk.inj (Except.ok.inj (hrun.symm.trans h))).2).1
        exact replaceLoop_buffer h (hsame ▸ hbuffer)
      · exact absurd hi (Nat.not_lt_zero i)

/-- The object that a concatenation found too small is as it was. -/
theorem failed_unchanged_iff_catcn :
    allocations (stringCatcn ⟨some [97, 0], 1, 2, false⟩ [98] (fun _ => none)) = 1 ∧
      ∃ asked, stringCatcn ⟨some [97, 0], 1, 2, false⟩ [98] (fun _ => none) =
        .ok (errNoMemory, ⟨some [97, 0], 1, 2, false⟩, asked) :=
  have hasked : 0 < allocations
    ((Call.catcn [98]).run true 0 ⟨some [97, 0], 1, 2, false⟩ (fun _ => none)) := by decide
  ⟨rfl, (failed_unchanged_iff hasked rfl).mpr (fun _ _ => nofun)⟩

/-- The object of a replacement that gets no memory has lost its buffer. -/
theorem replace_loses_buffer :
    stringReplace true 2 ⟨some [97, 0], 1, 2, false⟩ (some ⟨[97], by decide⟩) (some ⟨[98], by decide⟩)
      (fun _ => none) = .ok (errNoMemory, ⟨none, 1, 2, false⟩, 1) ∧
    (⟨none, 1, 2, false⟩ : StringClass) ≠ ⟨some [97, 0], 1, 2, false⟩ := by decide

end ErSdk.StringReplace
