import ErSdk.StringReplace

namespace ErSdk.StringRuns

open CStrings StringObjects StringReplace Runs Error

/-- A string object, and the content that the calls on it have defined. -/
structure Object where
  str : StringClass
  content : List UInt8
  deriving DecidableEq, Repr

/-- The calls, with the places of the objects in the list of those that were built. -/
inductive Operation
  | new (initString : Option CText)
  | newConst (initString : List UInt8)
  | catcn (i : Nat) (newChunk : List UInt8)
  | catc (i : Nat) (str2 : CText)
  | cat (i j : Nat) (different : j ≠ i)
  | replace (i : Nat) (substr replacement : Option CText)
      (nonempty : ∀ s ∈ substr, CText.text s ≠ [])
  | empty (i : Nat)

/-- The C string is searched; what stands behind a NUL is left alone. -/
def replacedContent (substr replacement : Option CText) (content : List UInt8) : List UInt8 :=
  match substr, replacement with
  | some substr, some replacement =>
      replaceAll substr.text replacement.text (cString content) ++
        content.drop (cString content).length
  | _, _ => content

def built (objects : List Object) (content : List UInt8) : Except Int StringClass → List Object
  | .error _ => objects
  | .ok str => objects ++ [⟨str, content⟩]

def changed (objects : List Object) (i : Nat) (content : List UInt8) : Outcome → Option (List Object)
  | .error _ => none
  | .ok (_, str, _) => some (objects.set i ⟨str, content⟩)

def onObject (objects : List Object) (i : Nat) (call : Object → Option (List Object)) :
    Option (List Object) :=
  match objects[i]? with
  | none => some objects
  | some o => call o

/-- `none` behind a call with undefined behaviour, or one that does not return. -/
def Operation.perform (libcHeap : Bool) (objects : List Object) (supply : Supply) :
    Operation → Option (List Object)
  | .new initString =>
      some (built objects (initString.elim [] CText.text) (stringNew initString supply))
  | .newConst initString => some (built objects initString (stringNewConst initString supply))
  | .catcn i newChunk => onObject objects i (fun o =>
      changed objects i (concatenated o.str.fixedSize o.content newChunk)
        (stringCatcn o.str newChunk supply))
  | .catc i str2 => onObject objects i (fun o =>
      changed objects i (concatenated o.str.fixedSize o.content str2.text)
        (stringCatc o.str str2 supply))
  | .cat i j _ => onObject objects i (fun o => onObject objects j (fun o2 =>
      changed objects i (concatenated o.str.fixedSize o.content o2.content)
        (stringCat o.str o2.str supply)))
  | .replace i substr replacement _ => onObject objects i (fun o =>
      changed objects i (replacedContent substr replacement o.content)
        (stringReplace libcHeap (o.str.size + 1) o.str substr replacement supply))
  | .empty i => onObject objects i (fun o => some (objects.set i ⟨stringEmpty o.str, []⟩))

/-- A call in which every allocation gives a block, with anything in it. -/
def step (libcHeap : Bool) (s : Option (List Object)) (a : Operation × (Nat → Nat → UInt8)) :
    Option (List Object) :=
  s.bind (fun objects => a.1.perform libcHeap objects (fun i => some (a.2 i)))

/-- The four parts agree on the content, and for content without NUL so do the C string views. -/
def Agrees (o : Object) : Prop :=
  Valid o.str o.content ∧ (0 ∉ o.content → stringGetCstring o.str = some o.content ∧
    ∀ c : CText, stringIsEqual o.str c = some (decide (o.content = c.text)))

/-- string_empty finds its terminator at the start of the buffer already, and string_replace gets
what it can work on if it has work to do. -/
def Sound (libcHeap : Bool) (objects : List Object) : Operation → Prop
  | .empty i => ∀ o ∈ objects[i]?, o.content.headD 0 = 0
  | .replace i substr replacement _ => ∀ o ∈ objects[i]?, ∀ s ∈ substr, replacement.isSome →
      CText.text s <:+: cString o.content → libcHeap = true ∧ 0 ∉ o.content
  | _ => True

theorem valid_agrees {o : Object} (h : Valid o.str o.content) : Agrees o :=
  ⟨h, fun hnul => ⟨h.cstring hnul, h.isEqual hnul⟩⟩

theorem cStringAt_content (content rest : List UInt8) :
    cStringAt (content ++ 0 :: rest) 0 = some (cString content) := by
  by_cases hnul : 0 ∈ content
  · obtain ⟨text, more, rfl, hno, -⟩ := cStringAt_zero hnul
    rw [List.append_assoc, List.cons_append, cString_append hno]
    exact cStringAt_append [] hno _
  · rw [cString_of_not_mem hnul]
    exact cStringAt_append [] hnul rest

theorem prefix_cString (content : List UInt8) : cString content <+: content := List.takeWhile_prefix _

theorem stringReplace_valid {str : StringClass} {content : List UInt8} (h : Valid str content)
    {libcHeap : Bool} {substr replacement : Option CText} {supply : Supply}
    (hnonempty : ∀ s ∈ substr, CText.text s ≠ [])
    (hsound : ∀ s ∈ substr, replacement.isSome → CText.text s <:+: cString content →
      libcHeap = true ∧ 0 ∉ content) (hgranted : Granted supply) :
    ∃ str' asked, stringReplace libcHeap (str.size + 1) str substr replacement supply =
      .ok (errSuccess, str', asked) ∧ Valid str' (replacedContent substr replacement content) := by
  cases substr with
  | none => exact ⟨str, 0, rfl, h⟩
  | some s =>
      cases replacement with
      | none => exact ⟨str, 0, rfl, h⟩
      | some r =>
          have hword : s.text ≠ [] := hnonempty s rfl
          obtain ⟨hsize, rest, hb, -⟩ := valid_iff.mp h
          unfold replacedContent
          dsimp only
          by_cases hoccurs : s.text <:+: cString content
          · obtain ⟨rfl, hnul⟩ := hsound s rfl rfl hoccurs
            obtain ⟨str', asked, hrun, hend, -⟩ := replaceLoop_replaces r hword hgranted 0
              (show Valid str ([] ++ content) from h) hnul (Nat.lt_succ_self _)
            rw [cString_of_not_mem hnul, List.drop_length, List.append_nil, hsize]
            exact ⟨str', asked, hrun, hend⟩
          · rw [replaceAll_eq hword, strstr_none_iff.mpr hoccurs]
            dsimp only
            rw [List.prefix_iff_eq_append.mp (prefix_cString content)]
            refine ⟨str, 0, ?_, h⟩
            unfold stringReplace replaceLoop
            simp only [hb, cStringAt_content, Option.map_some, strstr_none_iff.mpr hoccurs]

theorem stringEmpty_valid {str : StringClass} {content : List UInt8} (h : Valid str content)
    (hhead : content.headD 0 = 0) : Valid (stringEmpty str) [] := by
  obtain ⟨block, hb, hlen, hsize, rfl, hnul⟩ := h
  refine ⟨block, hb, hlen, by show 0 + 1 ≤ str.bufsize; omega, rfl, ?_⟩
  show block[0]? = some 0
  cases block with
  | nil => exact absurd hnul nofun
  | cons c block =>
      obtain ⟨buffer, size, bufsize, fixedSize⟩ := str
      cases size with
      | zero => exact hnul
      | succ size => exact congrArg some hhead

theorem stringNew_valid {initString : Option CText} {supply : Supply} {str : StringClass}
    (h : stringNew initString supply = .ok str) : Valid str (initString.elim [] CText.text) := by
  unfold stringNew at h
  split at h
  · exact absurd h nofun
  · dsimp only at h
    split at h
    · exact absurd h nofun
    · rename_i block hblock
      obtain rfl := Except.ok.inj h
      exact valid_filled (length_malloc hblock).2 (by omega) false

theorem stringNewConst_valid {initString : List UInt8} {supply : Supply} {str : StringClass}
    (h : stringNewConst initString supply = .ok str) : Valid str initString := by
  unfold stringNewConst at h
  split at h
  · exact absurd h nofun
  · dsimp only at h
    split at h
    · exact absurd h nofun
    · rename_i block hblock
      obtain rfl := Except.ok.inj h
      exact valid_filled (length_malloc hblock).2 (Nat.le_refl _) true

theorem stringCat_valid {str str2 : StringClass} {content content2 : List UInt8}
    (h : Valid str content) (h2 : Valid str2 content2) {supply : Supply}
    (hsupply : (supply 0).isSome) : ∃ code str' asked,
      stringCat str str2 supply = .ok (code, str', asked) ∧
        Valid str' (concatenated str.fixedSize content content2) := by
  obtain ⟨block, hb, hlen, hsize, rfl, -⟩ := h2
  obtain ⟨code, str', asked, hrun, hvalid⟩ :=
    stringCatcn_valid h (block.take str2.size) hsupply
  refine ⟨code, str', asked, ?_, hvalid⟩
  unfold stringCat
  rw [hb]
  exact (if_pos (by omega)).trans hrun

theorem built_agrees {objects : List Object} (h : ∀ o ∈ objects, Agrees o) {content : List UInt8}
    {r : Except Int StringClass} (hr : ∀ str, r = .ok str → Valid str content) :
    ∀ o ∈ built objects content r, Agrees o := by
  intro o ho
  cases r with
  | error => exact h o ho
  | ok str =>
      rcases List.mem_append.mp ho with hold | hnew
      · exact h o hold
      · obtain rfl := List.mem_singleton.mp hnew
        exact valid_agrees (hr str rfl)

theorem set_agrees {objects : List Object} (h : ∀ o ∈ objects, Agrees o) (i : Nat) {new : Object}
    (hnew : Valid new.str new.content) : ∀ o ∈ objects.set i new, Agrees o := by
  intro o ho
  rcases List.mem_or_eq_of_mem_set ho with hold | rfl
  · exact h o hold
  · exact valid_agrees hnew

theorem changed_agrees {objects : List Object} (h : ∀ o ∈ objects, Agrees o) (i : Nat)
    {content : List UInt8} {out : Outcome}
    (hout : ∃ code str' asked, out = .ok (code, str', asked) ∧ Valid str' content) :
    ∃ objects', changed objects i content out = some objects' ∧ ∀ o ∈ objects', Agrees o := by
  obtain ⟨code, str', asked, rfl, hvalid⟩ := hout
  exact ⟨_, rfl, set_agrees h i hvalid⟩

theorem onObject_agrees {objects : List Object} (h : ∀ o ∈ objects, Agrees o) (i : Nat)
    {call : Object → Option (List Object)}
    (hcall : ∀ o, objects[i]? = some o → Valid o.str o.content →
      ∃ objects', call o = some objects' ∧ ∀ o ∈ objects', Agrees o) :
    ∃ objects', onObject objects i call = some objects' ∧ ∀ o ∈ objects', Agrees o := by
  unfold onObject
  cases ho : objects[i]? with
  | none => exact ⟨objects, rfl, h⟩
  | some o => exact hcall o ho (h o (List.mem_of_getElem? ho)).1

theorem perform_agrees {libcHeap : Bool} {objects : List Object} (h : ∀ o ∈ objects, Agrees o)
    {supply : Supply} (hgranted : Granted supply) {op : Operation}
    (hsound : Sound libcHeap objects op) : ∃ objects',
      op.perform libcHeap objects supply = some objects' ∧ ∀ o ∈ objects', Agrees o := by
  have hcat (i : Nat) (o : Object) (ho : Valid o.str o.content) (newChunk : List UInt8) :
      ∃ objects', changed objects i (concatenated o.str.fixedSize o.content newChunk)
        (stringCatcn o.str newChunk supply) = some objects' ∧ ∀ o ∈ objects', Agrees o := by
    obtain ⟨code, str', asked, hrun, hend⟩ := stringCatcn_valid ho newChunk (hgranted 0)
    exact changed_agrees h i ⟨code, str', asked, hrun, hend⟩
  cases op with
  | new initString => exact ⟨_, rfl, built_agrees h (fun _ => stringNew_valid)⟩
  | newConst initString => exact ⟨_, rfl, built_agrees h (fun _ => stringNewConst_valid)⟩
  | catcn i newChunk => exact onObject_agrees h i (fun o _ ho => hcat i o ho newChunk)
  | catc i str2 => exact onObject_agrees h i (fun o _ ho => hcat i o ho str2.text)
  | cat i j different =>
      exact onObject_agrees h i (fun o _ ho => onObject_agrees h j (fun o2 _ ho2 =>
        changed_agrees h i (stringCat_valid ho ho2 (hgranted 0))))
  | replace i substr replacement nonempty =>
      refine onObject_agrees h i (fun o hi ho => changed_agrees h i ?_)
      obtain ⟨str', asked, hrun, hend⟩ := stringReplace_valid ho nonempty (hsound o hi) hgranted
      exact ⟨_, str', asked, hrun, hend⟩
  | empty i =>
      exact onObject_agrees h i (fun o hi ho =>
        ⟨_, rfl, set_agrees h i (stringEmpty_valid ho (hsound o hi))⟩)

/-- The guard of a run: where the run has come to an end, there is nothing to ask. -/
def Sounds (libcHeap : Bool) (s : Option (List Object)) (a : Operation × (Nat → Nat → UInt8)) : Prop :=
  ∀ objects ∈ s, Sound libcHeap objects a.1

/-- Every call so far has returned, and all the objects agree with their contents. -/
def AllAgree (s : Option (List Object)) : Prop := ∃ objects ∈ s, ∀ o ∈ objects, Agrees o

theorem step_agrees {libcHeap : Bool} {s : Option (List Object)}
    {a : Operation × (Nat → Nat → UInt8)} (hsound : Sounds libcHeap s a) (h : AllAgree s) :
    AllAgree (step libcHeap s a) := by
  obtain ⟨objects, rfl, hall⟩ := h
  obtain ⟨objects', hrun, hend⟩ := perform_agrees hall
    (show Granted (fun i => some (a.2 i)) from fun _ => rfl) (hsound objects rfl)
  exact ⟨objects', hrun, hend⟩

/-- In a run whose calls of string_empty and string_replace meet the condition, the size, the
block, the terminator and the content agree behind every call. -/
theorem contents_agree {libcHeap : Bool} {calls : List (Operation × (Nat → Nat → UInt8))}
    (h : Guarded (step libcHeap) (Sounds libcHeap) (some []) calls) (n : Nat) :
    AllAgree (run (step libcHeap) (some []) (calls.take n)) :=
  h.always (fun _ _ => step_agrees) ⟨[], rfl, nofun⟩ n

/-- A string of two bytes whose first one is replaced by two. -/
def lengthened : List (Operation × (Nat → Nat → UInt8)) :=
  [(.newConst (bytes "ab"), fun _ _ => 7),
    (.replace 0 (some ⟨bytes "a", by decide⟩) (some ⟨bytes "ba", by decide⟩)
      (fun s hs => Option.some.inj hs ▸ by decide), fun _ _ => 7)]

theorem contents_agree_lengthened : AllAgree (run (step true) (some []) (lengthened.take 2)) := by
  have hguard : Guarded (step true) (Sounds true) (some []) lengthened := by
    refine ⟨fun _ _ => trivial, fun objects hobjects o ho s _ _ _ => ?_, trivial⟩
    obtain rfl := Option.some.inj hobjects
    obtain rfl := Option.some.inj ho
    exact ⟨rfl, by decide⟩
  exact contents_agree hguard 2

/-- string_empty leaves the old text in the buffer, without a terminator in front of it. -/
theorem emptied_text_stays : ¬ AllAgree (run (step true) (some [])
    [(.newConst (bytes "ab"), fun _ _ => 7), (.empty 0, fun _ _ => 7)]) := by
  rintro ⟨objects, hobjects, hall⟩
  obtain rfl := Option.some.inj hobjects
  have hviews := (hall _ List.mem_cons_self).2 (by decide)
  exact absurd hviews.1 (by decide)

end ErSdk.StringRuns
