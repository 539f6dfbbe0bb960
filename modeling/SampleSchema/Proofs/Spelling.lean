import Mathlib
import SampleSchema.Json.Parser
import SampleSchema.Json.Printer

/-!
# Reading What Is Printed

The readers of a JSON text, applied to a text that has been printed.

A reader takes the text that is left and returns what remains of it. So what is
shown of each reader is what it does with a printed text that is followed by
any other text: it ends with the value that was printed and leaves the other
text as it is. The only thing that can keep it from doing so is the limit on
how deep brackets may nest, and `EndsWith` says exactly when that happens.

Both styles are covered at once. In front of every element there are blanks,
which may be none, and a reader skips blanks before it looks at anything.

The loops over elements and members are bounded by the text that is left when
they begin. That text has a comma for each element but the first, so the bound
is never reached. The first element differs from the others in what stands in
front of it, a bracket and not a comma; `following` is what is printed after
an element, and the inductions are about that.

Strings are read back whatever their characters are. A character is written as
itself, by a short escape or by its number, and the numbers that occur are the
32 of the control characters.

## Main definitions

* `EndsWith`: A reader ends with a value, or gives up for want of depth.
* `following`: What is printed after an element inside brackets.
* `interior`: What is printed after an opening bracket.
* `TakesText`: Members are taken in one by one.

## Theorems

* `stringTail_quote`: A string is read back.
* `listOf_interior`: A list is read back if its elements are.
* `foldMembers_interior`: An object is read back if its members are taken in.
* `wholeText_of_endsWith`: A whole text is read, or nests too deeply.
-/

namespace SampleSchema

namespace Json

/-! ### Ends -/

section Ends

variable {α β : Type} {fits more : Prop} {a : α} {b : β} {rest left : List Char}

/-- A reader ends with a value and the text after it, or it gives up over
    brackets that nest too deeply, depending on whether there is room. -/
def EndsWith (fits : Prop) (x : Except Trouble (α × List Char)) (a : α) (rest : List Char) : Prop :=
  fits ∧ x = .ok (a, rest) ∨ ¬ fits ∧ ∃ left, x = stopAt .tooDeep left

theorem EndsWith.of_ok {x : Except Trouble (α × List Char)} (hfits : fits) (h : x = .ok (a, rest)) :
    EndsWith fits x a rest := Or.inl ⟨hfits, h⟩

theorem EndsWith.of_tooDeep {x : Except Trouble (α × List Char)} (hfits : ¬ fits)
    (h : x = stopAt .tooDeep left) : EndsWith fits x a rest := Or.inr ⟨hfits, left, h⟩

theorem EndsWith.congr {x : Except Trouble (α × List Char)} (h : EndsWith fits x a rest)
    (hiff : fits ↔ more) : EndsWith more x a rest := by
  rwa [EndsWith, ← hiff]

/-- After a reader that ends comes the next one, and there must be room for
    both. -/
theorem EndsWith.bind {x : Except Trouble (α × List Char)}
    {f : α × List Char → Except Trouble (β × List Char)} (h : EndsWith fits x a left)
    (hf : fits → EndsWith more (f (a, left)) b rest) :
    EndsWith (fits ∧ more) (x >>= f) b rest := by
  rcases h with ⟨hfits, rfl⟩ | ⟨hfits, left, rfl⟩
  · rcases hf hfits with ⟨hmore, h⟩ | ⟨hmore, left, h⟩
    · exact .of_ok ⟨hfits, hmore⟩ h
    · exact .of_tooDeep (fun hboth => hmore hboth.2) h
  · exact .of_tooDeep (fun hboth => hfits hboth.1) rfl

/-- What a reader ends with may be changed. -/
theorem EndsWith.map {x : Except Trouble (α × List Char)} {f : α × List Char → β × List Char}
    (h : EndsWith fits x a left) (hf : f (a, left) = (b, rest)) :
    EndsWith fits (x >>= fun p => pure (f p)) b rest := by
  have hpure : EndsWith True (pure (f (a, left)) : Except Trouble (β × List Char)) b rest := by
    rw [hf]
    exact .of_ok trivial rfl
  exact (h.bind fun _ => hpure).congr (iff_of_eq (and_true fits))

end Ends

/-! ### Blanks -/

theorem skipBlanks_append {blanks : List Char} (h : ∀ c ∈ blanks, isBlank c) (cs : List Char) :
    skipBlanks (blanks ++ cs) = skipBlanks cs := by
  induction blanks with
  | nil => rfl
  | cons c blanks ih =>
      have hc : isBlank c := h c List.mem_cons_self
      rw [List.cons_append, skipBlanks, List.dropWhile_cons_of_pos hc]
      exact ih fun c' hc' => h c' (List.mem_cons_of_mem c hc')

theorem skipBlanks_cons {c : Char} (h : isBlank c = false) (cs : List Char) :
    skipBlanks (c :: cs) = c :: cs := by
  rw [skipBlanks, List.dropWhile_cons_of_neg (by simp [h])]

theorem isBlank_lineBreak (style : Style) (level : Nat) :
    ∀ c ∈ style.lineBreak level, isBlank c := by
  intro c hc
  cases style with
  | compact => cases hc
  | pretty =>
      rcases List.mem_cons.1 hc with rfl | hc
      · rfl
      · rw [List.eq_of_mem_replicate hc]
        rfl

/-! ### Strings -/

theorem hexDigits_control : ∀ n < 32, ∀ rest,
    hexDigits ('0' :: '0' :: hexDigit (n / 16) :: hexDigit (n % 16) :: rest) = .ok (n, rest) := by
  intro n hn rest
  interval_cases n <;> rfl

/-- A control character is read from its number. -/
theorem escaped_control {c : Char} (h : c.toNat < 0x20) (rest : List Char) :
    escaped ('u' :: '0' :: '0' :: hexDigit (c.toNat / 16) :: hexDigit (c.toNat % 16) :: rest) =
      .ok (c, rest) := by
  change unicodeEscape _ = _
  rw [unicodeEscape, hexDigits_control _ h]
  change (if 0xDC00 ≤ c.toNat ∧ c.toNat ≤ 0xDFFF then _ else _) = _
  -- The number is too small for half of a pair.
  rw [if_neg (by omega), if_neg (by omega), Char.ofNat_toNat]

/-- An escaped character is read as that character. -/
theorem stringChars_escape (b : Char) (bound : List Char) (c : Char) (rest : List Char) :
    stringChars (b :: bound) (escape c ++ rest) =
      (stringChars bound rest >>= fun p => pure (c :: p.1, p.2)) := by
  unfold escape
  -- First the seven characters with a short escape, then all others.
  split
  · rfl
  · rfl
  · rfl
  · rfl
  · rfl
  · rfl
  · rfl
  · next hquote hbackslash _ _ _ _ _ =>
      by_cases hcontrol : c.toNat < 0x20
      · rw [if_pos hcontrol]
        have hescaped := escaped_control hcontrol rest
        change (escaped ('u' :: '0' :: '0' :: hexDigit (c.toNat / 16) :: hexDigit (c.toNat % 16) ::
          rest) >>= fun p => stringChars bound p.2 >>= fun q => pure (p.1 :: q.1, q.2)) = _
        rw [hescaped]
        rfl
      · rw [if_neg hcontrol, List.singleton_append, stringChars, if_neg hquote, if_neg hbackslash,
          if_neg hcontrol]

theorem stringChars_flatMap {cs bound : List Char} (h : cs.length < bound.length)
    (rest : List Char) : stringChars bound (cs.flatMap escape ++ '"' :: rest) = .ok (cs, rest) := by
  induction cs generalizing bound with
  | nil =>
      cases bound with
      | nil => cases h
      | cons b bound => rfl
  | cons c cs ih =>
      cases bound with
      | nil => cases h
      | cons b bound =>
          rw [List.flatMap_cons, List.append_assoc, stringChars_escape,
            ih (Nat.lt_of_succ_lt_succ h)]
          rfl

/-- An escaped text is no shorter than the text. -/
theorem length_le_flatMap_escape (cs : List Char) : cs.length ≤ (cs.flatMap escape).length := by
  induction cs with
  | nil => rfl
  | cons c cs ih =>
      have hpos : 0 < (escape c).length := by
        unfold escape
        split <;> try exact Nat.zero_lt_succ _
        split <;> exact Nat.zero_lt_succ _
      rw [List.flatMap_cons, List.length_append, List.length_cons]
      omega

/-- A string is read up to its closing quote. -/
theorem stringTail_quote (s : String) (rest : List Char) :
    stringTail (s.toList.flatMap escape ++ '"' :: rest) = .ok (s, rest) := by
  have hbound : s.toList.length < (s.toList.flatMap escape ++ '"' :: rest).length := by
    have := length_le_flatMap_escape s.toList
    rw [List.length_append, List.length_cons]
    omega
  rw [stringTail, stringChars_flatMap hbound]
  change Except.ok (String.ofList s.toList, rest) = _
  rw [String.ofList_toList]

/-! ### What stands between brackets -/

/-- What follows an element inside brackets: the other elements, and the closing
    bracket. -/
def following (style : Style) (level : Nat) (closing : Char) : List (List Char) → List Char
  | [] => style.lineBreak level ++ [closing]
  | e :: es =>
      ',' :: (style.lineBreak (level + 1) ++ (e ++ following style level closing es))

theorem intercalate_following (style : Style) (level : Nat) (closing : Char) (e : List Char)
    (es : List (List Char)) :
    (',' :: style.lineBreak (level + 1)).intercalate (e :: es) ++ style.lineBreak level ++
      [closing] = e ++ following style level closing es := by
  induction es generalizing e with
  | nil => simp [following]
  | cons e' es ih =>
      rw [List.intercalate_cons_cons, following, List.append_assoc, List.append_assoc,
        List.append_assoc, ← List.append_assoc _ _ [closing], ih]
      simp

/-- What follows an opening bracket. -/
def interior (style : Style) (level : Nat) (closing : Char) : List (List Char) → List Char
  | [] => [closing]
  | e :: es => style.lineBreak (level + 1) ++ (e ++ following style level closing es)

theorem enclose_eq (style : Style) (level : Nat) (opening closing : Char)
    (es : List (List Char)) :
    enclose style level opening closing es = opening :: interior style level closing es := by
  cases es with
  | nil => rfl
  | cons e es =>
      rw [enclose, if_neg (by simp), interior, ← intercalate_following]
      simp

/-- There is a comma for every element that follows. -/
theorem length_lt_following (style : Style) (level : Nat) (closing : Char)
    (es : List (List Char)) : es.length < (following style level closing es).length := by
  induction es with
  | nil => simp [following]
  | cons e es ih =>
      rw [following, List.length_cons, List.length_cons, List.length_append, List.length_append]
      omega

section Lists

variable {α β : Type} {item : Parser β} {write : α → List Char} {value : α → β} {fits : α → Prop}
  {style : Style} {level : Nat} {as : List α}

/-- A text begins with a character that is neither blank nor the given one. -/
def Begins (closing : Char) (text : List Char) : Prop :=
  ∃ c cs, text = c :: cs ∧ isBlank c = false ∧ c ≠ closing

theorem skipBlanks_begins {closing : Char} {text blanks : List Char}
    (hblanks : ∀ c ∈ blanks, isBlank c) (h : Begins closing text) (rest : List Char) :
    skipBlanks (blanks ++ (text ++ rest)) = text ++ rest := by
  rcases h with ⟨c, cs, rfl, hc, -⟩
  rw [skipBlanks_append hblanks, List.cons_append, skipBlanks_cons hc]

theorem hasElement_closing {blanks : List Char} (hblanks : ∀ c ∈ blanks, isBlank c) (first : Bool)
    (rest : List Char) : hasElement first (blanks ++ ']' :: rest) = .ok (false, ']' :: rest) := by
  rw [hasElement, skipBlanks_append hblanks, skipBlanks_cons rfl]
  rfl

theorem hasElement_first {blanks text : List Char} (hblanks : ∀ c ∈ blanks, isBlank c)
    (h : Begins ']' text) (rest : List Char) :
    hasElement true (blanks ++ (text ++ rest)) = .ok (true, text ++ rest) := by
  rw [hasElement, skipBlanks_begins hblanks h]
  rcases h with ⟨c, cs, rfl, -, hc⟩
  rw [List.cons_append]
  simp only [if_neg hc, if_true]

theorem hasElement_next {blanks text : List Char} (hblanks : ∀ c ∈ blanks, isBlank c)
    (h : Begins ']' text) (rest : List Char) :
    hasElement false (',' :: (blanks ++ (text ++ rest))) = .ok (true, text ++ rest) := by
  have htext := skipBlanks_begins hblanks h rest
  rcases h with ⟨c, cs, rfl, -, hc⟩
  rw [List.cons_append] at htext ⊢
  simp [hasElement, skipBlanks_cons, isBlank, htext, hc]

/-- Without a further element the list ends. -/
theorem elements_of_closing {first : Bool} {c : Char} {bound cs rest : List Char}
    (hbound : 0 < bound.length) (h : hasElement first cs = .ok (false, c :: rest)) :
    elements item bound first cs = .ok ([], rest) := by
  cases bound with
  | nil => cases hbound
  | cons b bound =>
      change (hasElement first cs >>= fun p => (if p.1 then _ else _ : Parser (List β)) p.2) = _
      rw [h]
      rfl

/-- A further element is read, and then those after it. -/
theorem elements_of_element {first : Bool} {bound cs cs' : List Char}
    (hbound : 0 < bound.length) (h : hasElement first cs = .ok (true, cs')) :
    elements item bound first cs = (item cs' >>= fun p =>
      elements item bound.tail false p.2 >>= fun q => pure (p.1 :: q.1, q.2)) := by
  cases bound with
  | nil => cases hbound
  | cons b bound =>
      change (hasElement first cs >>= fun p => (if p.1 then _ else _ : Parser (List β)) p.2) = _
      rw [h]
      rfl

/-- The elements that follow are read one by one. -/
theorem elements_following (hbegins : ∀ a ∈ as, Begins ']' (write a))
    (hitem : ∀ a ∈ as, ∀ rest, EndsWith (fits a) (item (write a ++ rest)) (value a) rest)
    {bound : List Char} (hbound : as.length < bound.length) (rest : List Char) :
    EndsWith (∀ a ∈ as, fits a)
      (elements item bound false (following style level ']' (as.map write) ++ rest)) (as.map value)
      rest := by
  induction as generalizing bound with
  | nil =>
      rw [List.map_nil, following, List.append_assoc, List.singleton_append]
      refine .of_ok (fun a ha => absurd ha List.not_mem_nil) ?_
      exact elements_of_closing hbound (hasElement_closing (isBlank_lineBreak style level) false rest)
  | cons a as ih =>
      rw [List.forall_mem_cons] at hbegins hitem
      have htail : as.length < bound.tail.length := by
        rw [List.length_cons] at hbound
        rw [List.length_tail]
        omega
      have hnext := hasElement_next (isBlank_lineBreak style (level + 1)) hbegins.1
        (following style level ']' (as.map write) ++ rest)
      rw [List.map_cons, following, List.cons_append, List.append_assoc, List.append_assoc,
        elements_of_element (Nat.zero_lt_of_lt hbound) hnext, List.forall_mem_cons]
      exact (hitem.1 _).bind fun _ => (ih hbegins.2 hitem.2 htail).map rfl

/-- A list is read from what stands between its brackets. -/
theorem listOf_interior (style : Style) (level : Nat) (hbegins : ∀ a ∈ as, Begins ']' (write a))
    (hitem : ∀ a ∈ as, ∀ rest, EndsWith (fits a) (item (write a ++ rest)) (value a) rest)
    (rest : List Char) :
    EndsWith (∀ a ∈ as, fits a)
      (listOf item (interior style level ']' (as.map write) ++ rest)) (as.map value) rest := by
  cases as with
  | nil =>
      refine .of_ok (fun a ha => absurd ha List.not_mem_nil) ?_
      exact elements_of_closing (Nat.zero_lt_succ _)
        (hasElement_closing (List.forall_mem_nil _) true rest)
  | cons a as =>
      rw [List.forall_mem_cons] at hbegins hitem
      have hfirst := hasElement_first (isBlank_lineBreak style (level + 1)) hbegins.1
        (following style level ']' (as.map write) ++ rest)
      -- The text is its own bound, and it is longer than the list.
      have hbound : as.length + 1 < (style.lineBreak (level + 1) ++
          (write a ++ (following style level ']' (as.map write) ++ rest))).length := by
        have hfollowing := length_lt_following style level ']' (as.map write)
        rcases hbegins.1 with ⟨c, cs, hwrite, -, -⟩
        simp only [hwrite, List.length_append, List.length_cons, List.length_map] at hfollowing ⊢
        omega
      have htail := Nat.lt_sub_of_add_lt hbound
      rw [← List.length_tail] at htail
      rw [List.map_cons, interior, List.append_assoc, List.append_assoc, listOf,
        elements_of_element (Nat.zero_lt_of_lt hbound) hfirst, List.forall_mem_cons]
      exact (hitem.1 _).bind fun _ => (elements_following hbegins.2 hitem.2 htail rest).map rfl

end Lists

/-! ### Objects -/

section Objects

variable {σ ε : Type} {take : σ → String → Parser σ} {text : ε → List Char} {fits : ε → Prop}
  {style : Style} {level : Nat} {es : List (String × ε)} {state last : σ}

/-- Members are taken in one by one, each from the text that comes after its
    name. -/
inductive TakesText (take : σ → String → Parser σ) (text : ε → List Char) (fits : ε → Prop) :
    List (String × ε) → σ → σ → Prop
  | nil {state : σ} : TakesText take text fits [] state state
  | cons {name : String} {e : ε} {es : List (String × ε)} {state next last : σ}
      (htake : ∀ rest, EndsWith (fits e) (take state name (text e ++ rest)) next rest)
      (hrest : TakesText take text fits es next last) :
      TakesText take text fits ((name, e) :: es) state last

theorem quote_append (s : String) (rest : List Char) :
    quote s ++ rest = '"' :: (s.toList.flatMap escape ++ '"' :: rest) := by
  simp [quote]

theorem hasMember_closing {blanks : List Char} (hblanks : ∀ c ∈ blanks, isBlank c) (first : Bool)
    (rest : List Char) : hasMember first (blanks ++ '\x7d' :: rest) = .ok (false, rest) := by
  rw [hasMember, skipBlanks_append hblanks, skipBlanks_cons rfl]
  rfl

theorem hasMember_first {blanks : List Char} (hblanks : ∀ c ∈ blanks, isBlank c)
    (rest : List Char) : hasMember true (blanks ++ '"' :: rest) = .ok (true, rest) := by
  rw [hasMember, skipBlanks_append hblanks, skipBlanks_cons rfl]
  rfl

theorem hasMember_next {blanks : List Char} (hblanks : ∀ c ∈ blanks, isBlank c)
    (rest : List Char) : hasMember false (',' :: (blanks ++ '"' :: rest)) = .ok (true, rest) := by
  simp [hasMember, skipBlanks_append hblanks, skipBlanks_cons, isBlank]

/-- Without a further member the object ends. -/
theorem members_of_closing {first : Bool} {bound cs rest : List Char} (hbound : 0 < bound.length)
    (h : hasMember first cs = .ok (false, rest)) :
    members take bound first state cs = .ok (state, rest) := by
  cases bound with
  | nil => cases hbound
  | cons b bound =>
      change (hasMember first cs >>= fun p => (if p.1 then _ else _ : Parser σ) p.2) = _
      rw [h]
      rfl

/-- A further member is taken in, and then those after it. -/
theorem members_of_member {first : Bool} {bound cs rest : List Char} {name : String}
    (hbound : 0 < bound.length)
    (h : hasMember first cs = .ok (true, name.toList.flatMap escape ++ '"' :: rest)) :
    members take bound first state cs =
      (take state name rest >>= fun p => members take bound.tail false p.1 p.2) := by
  cases bound with
  | nil => cases hbound
  | cons b bound =>
      change (hasMember first cs >>= fun p => (if p.1 then _ else _ : Parser σ) p.2) = _
      rw [h]
      change (stringTail (name.toList.flatMap escape ++ '"' :: rest) >>= fun p =>
        take state p.1 p.2 >>= fun q => members take bound false q.1 q.2) = _
      rw [stringTail_quote]
      rfl

/-- The members that follow are taken in one by one. -/
theorem members_following (h : TakesText take text fits es state last) {bound : List Char}
    (hbound : es.length < bound.length) (rest : List Char) :
    EndsWith (∀ e ∈ es, fits e.2)
      (members take bound false state
        (following style level '\x7d' (es.map fun e => quote e.1 ++ text e.2) ++ rest))
      last rest := by
  induction h generalizing bound with
  | nil =>
      rw [List.map_nil, following, List.append_assoc, List.singleton_append]
      refine .of_ok (fun e he => absurd he List.not_mem_nil) ?_
      exact members_of_closing hbound (hasMember_closing (isBlank_lineBreak style level) false rest)
  | @cons name e es state next last htake _ ih =>
      have htail : es.length < bound.tail.length := by
        rw [List.length_cons] at hbound
        rw [List.length_tail]
        omega
      rw [List.map_cons, following, List.cons_append, List.append_assoc, List.append_assoc,
        List.append_assoc, quote_append, members_of_member (Nat.zero_lt_of_lt hbound)
          (hasMember_next (isBlank_lineBreak style (level + 1)) _), List.forall_mem_cons]
      exact (htake _).bind fun _ => ih htail

/-- An object is read from what stands between its brackets. -/
theorem foldMembers_interior (style : Style) (level : Nat)
    (h : TakesText take text fits es state last) (rest : List Char) :
    EndsWith (∀ e ∈ es, fits e.2)
      (foldMembers take state
        (interior style level '\x7d' (es.map fun e => quote e.1 ++ text e.2) ++ rest))
      last rest := by
  cases h with
  | nil =>
      refine .of_ok (fun e he => absurd he List.not_mem_nil) ?_
      exact members_of_closing (Nat.zero_lt_succ _)
        (hasMember_closing (List.forall_mem_nil _) true rest)
  | @cons name e es state next last htake hrest =>
      rw [List.map_cons, interior, List.append_assoc, List.append_assoc, List.append_assoc,
        quote_append, foldMembers]
      have hbound : es.length + 1 < (style.lineBreak (level + 1) ++
          '"' :: (name.toList.flatMap escape ++ '"' :: (text e ++ (following style level '\x7d'
            (es.map fun e => quote e.1 ++ text e.2) ++ rest)))).length := by
        have hfollowing := length_lt_following style level '\x7d'
          (es.map fun e => quote e.1 ++ text e.2)
        simp only [List.length_append, List.length_cons, List.length_map] at hfollowing ⊢
        omega
      have htail := Nat.lt_sub_of_add_lt hbound
      rw [← List.length_tail] at htail
      rw [members_of_member (Nat.zero_lt_of_lt hbound)
        (hasMember_first (isBlank_lineBreak style (level + 1)) _), List.forall_mem_cons]
      exact (htake _).bind fun _ => members_following hrest htail rest

/-- Take in an entry in front of those before it. -/
def takeEntry {α : Type} (item : Parser α) (entries : List (String × α)) (name : String) :
    Parser (List (String × α)) := do
  let a ← member item
  pure ((name, a) :: entries)

theorem takesText_entries {α : Type} {item : Parser α} {value : ε → α}
    (h : ∀ name e, (name, e) ∈ es → ∀ rest,
      EndsWith (fits e) (member item (text e ++ rest)) (value e) rest)
    (before : List (String × α)) :
    TakesText (takeEntry item) text fits es before
      ((es.map fun e => (e.1, value e.2)).reverse ++ before) := by
  induction es generalizing before with
  | nil => exact .nil
  | cons e es ih =>
      have hrest := ih (fun name e' he' => h name e' (List.mem_cons_of_mem e he'))
        ((e.1, value e.2) :: before)
      rw [List.map_cons, List.reverse_cons, List.append_assoc]
      exact .cons (fun rest => (h e.1 e.2 List.mem_cons_self rest).map rfl) hrest

/-- The entries of an object are read, the last one first. -/
theorem foldMembers_entries {α : Type} {item : Parser α} {value : ε → α} (style : Style)
    (level : Nat)
    (h : ∀ name e, (name, e) ∈ es → ∀ rest,
      EndsWith (fits e) (member item (text e ++ rest)) (value e) rest)
    (rest : List Char) :
    EndsWith (∀ e ∈ es, fits e.2)
      (foldMembers (takeEntry item) []
        (interior style level '\x7d' (es.map fun e => quote e.1 ++ text e.2) ++ rest))
      (es.map fun e => (e.1, value e.2)).reverse rest := by
  rw [← List.append_nil (es.map _).reverse]
  exact foldMembers_interior style level (takesText_entries h []) rest

end Objects

/-! ### Values -/

section Values

variable {α β : Type} {blanks : List Char}

/-- The next character is looked at. -/
theorem peek_bind (hblanks : ∀ c ∈ blanks, isBlank c) {c : Char} (hc : isBlank c = false)
    (k : Option Char → Parser β) (cs : List Char) :
    (peek >>= k) (blanks ++ c :: cs) = k (some c) (c :: cs) := by
  change k (skipBlanks (blanks ++ c :: cs)).head? (skipBlanks (blanks ++ c :: cs)) = _
  rw [skipBlanks_append hblanks, skipBlanks_cons hc]
  rfl

/-- A pair of brackets is read with the depth that remains inside. -/
theorem EndsWith.within {inside : Nat → Parser α} {depth d : Nat} {a : α} {rest cs : List Char}
    (c : Char) (hpos : 0 < depth)
    (h : ∀ d', d = d' + 1 → EndsWith (depth ≤ d' + 1) (inside d' cs) a rest) :
    EndsWith (depth ≤ d) (within inside d (c :: cs)) a rest := by
  cases d with
  | zero => exact .of_tooDeep (by omega) rfl
  | succ d => exact h d rfl

/-- A value is read after the colon in front of it. -/
theorem EndsWith.member {fits : Prop} {value : Parser α} {cs rest : List Char} {a : α}
    (style : Style)
    (h : ∀ blanks, (∀ c ∈ blanks, isBlank c) → EndsWith fits (value (blanks ++ cs)) a rest) :
    EndsWith fits (member value (style.colon ++ cs)) a rest := by
  cases style with
  | compact => exact h [] (List.forall_mem_nil _)
  | pretty => exact h [' '] (List.forall_mem_singleton.2 rfl)

theorem scalar_quote (s : String) (rest : List Char) :
    scalar (quote s ++ rest) = .ok (.string s, rest) := by
  rw [quote_append]
  change (stringTail (s.toList.flatMap escape ++ '"' :: rest) >>= fun p =>
    pure (Written.string p.1, p.2)) = _
  rw [stringTail_quote]
  rfl

theorem writtenWithin_quote (hblanks : ∀ c ∈ blanks, isBlank c) (depth : Nat) (s : String)
    (rest : List Char) :
    writtenWithin depth (blanks ++ (quote s ++ rest)) = .ok (.string s, rest) := by
  have hscalar := scalar_quote s rest
  rw [quote_append] at hscalar ⊢
  cases depth with
  | zero => exact (peek_bind hblanks rfl _ _).trans hscalar
  | succ depth => exact (peek_bind hblanks rfl _ _).trans hscalar

/-- A whole text that a reader ends with is read, but for brackets that nest too
    deeply. -/
theorem wholeText_of_endsWith {fits : Prop} {reader : Parser α} {cs : List Char} {a : α}
    (h : EndsWith fits (reader cs) a blanks) (hblanks : ∀ c ∈ blanks, isBlank c) :
    (fits → wholeText reader cs = .ok a) ∧
      (¬ fits → ∃ p, wholeText reader cs = .error (.malformed .tooDeep p)) := by
  rcases h with ⟨hfits, hread⟩ | ⟨hfits, left, hread⟩
  · refine ⟨fun _ => ?_, fun hnot => absurd hfits hnot⟩
    have hend : skipBlanks blanks = [] := List.dropWhile_eq_nil_iff.2 hblanks
    simp only [wholeText, hread, bind, Except.bind, hend]
    rfl
  · refine ⟨fun hyes => absurd hyes hfits, fun _ => ?_⟩
    rw [wholeText, hread]
    exact ⟨_, rfl⟩

end Values

end Json

end SampleSchema
