import ChainScript.Event.Scan

/-! # The grammar of a line

The items of a line, said without a scan. A line is blanks, comments, parentheses, quoted texts and
bare texts, one after the other; a bare text is as long as it can be, and a quoted text ends at the
first quote that no backslash precedes.

* `Spells`: what stands between two quotes, and the text it stands for.
* `Itemized`: the items of a line from a byte offset on, and the quote that is never closed.
* `itemized_iff`: the grammar gives each line the items that the scan finds, and no others.
* `Itemized.located`: the offset of an item is the number of bytes before its first character.
-/

namespace ChainScript
set_option autoImplicit false

open Scan

/-! ## Rules -/

/-- The characters that end a bare text. -/
def Delimits (c : Char) : Prop :=
  Text.isBlank c = true ∨ c = '(' ∨ c = ')' ∨ c = '"'

/-- A comment starts with a number sign or with two dashes. -/
def Comments (line : List Char) : Prop :=
  ['#'] <+: line ∨ ['-', '-'] <+: line

/-- The characters between two quotes, and the text that they spell. -/
inductive Spells : List Char → List Char → Prop where
  | nil : Spells [] []
  | plain {c : Char} {raw text : List Char} (hquote : c ≠ '"') (hescape : c ≠ '\\')
      (h : Spells raw text) : Spells (c :: raw) (c :: text)
  | lineFeed {raw text : List Char} (h : Spells raw text) :
      Spells ('\\' :: 'n' :: raw) ('\n' :: text)
  | tab {raw text : List Char} (h : Spells raw text) : Spells ('\\' :: 't' :: raw) ('\t' :: text)
  | escaped {c : Char} {raw text : List Char} (hn : c ≠ 'n') (ht : c ≠ 't') (h : Spells raw text) :
      Spells ('\\' :: c :: raw) (c :: text)

/-- The characters behind a quote that nothing closes; the last may be a backslash on its own. -/
def Unclosed (raw : List Char) : Prop :=
  ∃ front text, Spells front text ∧ (raw = front ∨ raw = front ++ ['\\'])

/-- The items of a line that starts at a byte offset, and the offset of the quote that is never
closed, if there is one. -/
inductive Itemized : Nat → List Char → List PlacedItem → Option Nat → Prop where
  | done {offset : Nat} : Itemized offset [] [] none
  | comment {offset : Nat} {line : List Char} (hline : Comments line) :
      Itemized offset line [] none
  | blank {offset : Nat} {c : Char} {rest : List Char} {items : List PlacedItem}
      {quote : Option Nat} (hc : Text.isBlank c = true)
      (h : Itemized (offset + c.utf8Size) rest items quote) :
      Itemized offset (c :: rest) items quote
  | opening {offset : Nat} {rest : List Char} {items : List PlacedItem} {quote : Option Nat}
      (h : Itemized (offset + 1) rest items quote) :
      Itemized offset ('(' :: rest) (⟨offset, .opening⟩ :: items) quote
  | closing {offset : Nat} {rest : List Char} {items : List PlacedItem} {quote : Option Nat}
      (h : Itemized (offset + 1) rest items quote) :
      Itemized offset (')' :: rest) (⟨offset, .closing⟩ :: items) quote
  | quoted {offset : Nat} {raw text rest : List Char} {items : List PlacedItem}
      {quote : Option Nat} (hraw : Spells raw text)
      (h : Itemized (offset + (1 + Text.utf8Length raw + 1)) rest items quote) :
      Itemized offset ('"' :: (raw ++ '"' :: rest)) (⟨offset, .text text⟩ :: items) quote
  | unclosed {offset : Nat} {raw : List Char} (hraw : Unclosed raw) :
      Itemized offset ('"' :: raw) [] (some offset)
  | bare {offset : Nat} {word rest : List Char} {items : List PlacedItem} {quote : Option Nat}
      (hne : word ≠ []) (hword : ∀ c ∈ word, ¬ Delimits c) (hcomment : ¬ Comments word)
      (hend : ∀ c ∈ rest.head?, Delimits c)
      (h : Itemized (offset + Text.utf8Length word) rest items quote) :
      Itemized offset (word ++ rest) (⟨offset, .text word⟩ :: items) quote

/-! ## Characters -/

@[simp] theorem Text.utf8Length_nil : Text.utf8Length [] = 0 := rfl

@[simp] theorem Text.utf8Length_cons (c : Char) (cs : List Char) :
    Text.utf8Length (c :: cs) = c.utf8Size + Text.utf8Length cs := rfl

@[simp] theorem Text.utf8Length_append (cs ds : List Char) :
    Text.utf8Length (cs ++ ds) = Text.utf8Length cs + Text.utf8Length ds := by
  induction cs with
  | nil => simp
  | cons c cs ih =>
    rw [List.cons_append, utf8Length_cons, utf8Length_cons, ih]
    omega

theorem Text.utf8Length_eq (cs : List Char) :
    Text.utf8Length cs = (String.ofList cs).utf8ByteSize := by
  induction cs with
  | nil => simp
  | cons c cs ih => simp [String.ofList_cons, ih]

theorem endsBare_iff {c : Char} : endsBare c = true ↔ Delimits c := by
  simp [endsBare, Delimits, or_assoc]

def inWord (c : Char) : Bool := !endsBare c

theorem inWord_iff {c : Char} : inWord c = true ↔ ¬ Delimits c := by
  rw [← endsBare_iff]
  simp [inWord]

theorem comments_cons {c : Char} {rest : List Char} :
    Comments (c :: rest) ↔ c = '#' ∨ c = '-' ∧ rest.head? = some '-' := by
  unfold Comments
  rw [List.cons_prefix_cons, List.cons_prefix_cons, eq_comm, eq_comm (b := c)]
  cases rest with
  | nil => simp
  | cons d rest => simp [List.cons_prefix_cons, eq_comm (b := d)]

theorem startsComment_iff {c : Char} {rest : List Char} :
    startsComment c rest = true ↔ Comments (c :: rest) := by
  rw [comments_cons]
  simp [startsComment]

theorem Delimits.not_comments {c : Char} (hc : Delimits c) (rest : List Char) :
    ¬ Comments (c :: rest) := by
  rw [comments_cons]
  rintro (rfl | ⟨rfl, -⟩)
  · exact absurd hc (by unfold Delimits; decide)
  · exact absurd hc (by unfold Delimits; decide)

/-! ## The scan, mode by mode -/

namespace Scan

variable {offset start : Nat} {c : Char} {read rest : List Char}

theorem scan_between (h : ¬ Comments (c :: rest)) :
    scanFrom offset .between (c :: rest) =
      (scanFrom (offset + c.utf8Size) (enter offset c).2 rest).pushIf offset (enter offset c).1 := by
  have hstarts : ¬ startsComment c rest = true := fun hc => h (startsComment_iff.mp hc)
  rw [scanFrom, if_neg hstarts]

theorem scan_delimiter (h : Delimits c) :
    scanFrom offset .between (c :: rest) =
      (scanFrom (offset + c.utf8Size) (enter offset c).2 rest).pushIf offset (enter offset c).1 :=
  scan_between (h.not_comments rest)

theorem scan_word {word : List Char} (hword : ∀ c ∈ word, ¬ Delimits c) :
    scanFrom offset (.bare start read) (word ++ rest) =
      scanFrom (offset + Text.utf8Length word) (.bare start (word.reverse ++ read)) rest := by
  induction word generalizing offset read with
  | nil => simp
  | cons c word ih =>
    have hc : ¬ endsBare c = true := fun h => hword c (List.mem_cons_self ..) (endsBare_iff.mp h)
    have hrest : ∀ d ∈ word, ¬ Delimits d := fun d hd => hword d (List.mem_cons_of_mem c hd)
    rw [List.cons_append, scanFrom, if_neg hc, ih hrest]
    simp [Nat.add_assoc]

theorem scan_word_end (hend : ∀ c ∈ rest.head?, Delimits c) :
    scanFrom offset (.bare start read) rest =
      (scanFrom offset .between rest).push start (.text read.reverse) := by
  cases rest with
  | nil => simp [scanFrom, push]
  | cons c rest =>
    have hc : Delimits c := hend c rfl
    rw [scan_delimiter hc, scanFrom, if_pos (endsBare_iff.mpr hc)]

theorem scan_spelling {raw text : List Char} (hraw : Spells raw text) :
    scanFrom offset (.quoted start read) (raw ++ rest) =
      scanFrom (offset + Text.utf8Length raw) (.quoted start (text.reverse ++ read)) rest := by
  induction hraw generalizing offset read with
  | nil => simp
  | @plain c raw text hquote hescape _ ih =>
    rw [List.cons_append, scanFrom, if_neg hescape, if_neg hquote, ih]
    simp [Nat.add_assoc]
  | lineFeed _ ih | tab _ ih =>
    rw [List.cons_append, List.cons_append, scanFrom, if_pos rfl, scanFrom, ih]
    simp [unescape, Nat.add_assoc]
  | @escaped c raw text hn ht _ ih =>
    rw [List.cons_append, List.cons_append, scanFrom, if_pos rfl, scanFrom, ih]
    simp [unescape, hn, ht, Nat.add_assoc]

theorem scan_unclosed {raw : List Char} (hraw : Unclosed raw) :
    scanFrom offset (.quoted start read) raw = ⟨[], some start⟩ := by
  obtain ⟨front, text, hfront, rfl | rfl⟩ := hraw
  · rw [← List.append_nil raw, scan_spelling hfront, scanFrom]
  · rw [scan_spelling hfront, scanFrom, if_pos rfl, scanFrom]

end Scan

/-! ## The scan and the grammar -/

namespace Itemized

variable {offset : Nat} {line : List Char} {items : List PlacedItem} {quote : Option Nat}

theorem scan (h : Itemized offset line items quote) :
    scanFrom offset .between line = ⟨items, quote⟩ := by
  induction h with
  | done => rw [scanFrom]
  | @comment offset line hline =>
    cases line with
    | nil => rw [scanFrom]
    | cons c rest => rw [scanFrom, if_pos (startsComment_iff.mpr hline)]
  | @blank offset c rest items quote hc _ ih =>
    have henter : enter offset c = (none, .between) := by rw [enter, if_pos hc]
    rw [scan_delimiter (.inl hc), henter, ih, pushIf]
  | @opening offset rest items quote _ ih =>
    have hsize : '('.utf8Size = 1 := rfl
    have henter : enter offset '(' = (some .opening, .between) := rfl
    rw [scan_delimiter (.inr (.inl rfl)), henter, hsize, ih, pushIf, push]
  | @closing offset rest items quote _ ih =>
    have hsize : ')'.utf8Size = 1 := rfl
    have henter : enter offset ')' = (some .closing, .between) := rfl
    rw [scan_delimiter (.inr (.inr (.inl rfl))), henter, hsize, ih, pushIf, push]
  | @quoted offset raw text rest items quote hraw _ ih =>
    have hsize : '"'.utf8Size = 1 := rfl
    have henter : enter offset '"' = (none, .quoted offset []) := rfl
    have hoffset : offset + 1 + Text.utf8Length raw + 1 =
        offset + (1 + Text.utf8Length raw + 1) := by omega
    rw [scan_delimiter (.inr (.inr (.inr rfl))), henter, hsize, pushIf, scan_spelling hraw,
      scanFrom, if_neg (by decide), if_pos rfl, hsize, hoffset, ih, push]
    simp
  | @unclosed offset raw hraw =>
    have henter : enter offset '"' = (none, .quoted offset []) := rfl
    rw [scan_delimiter (.inr (.inr (.inr rfl))), henter, scan_unclosed hraw, pushIf]
  | @bare offset word rest items quote hne hword hcomment hend _ ih =>
    obtain ⟨c, word, rfl⟩ := List.exists_cons_of_ne_nil hne
    have hc := hword c (List.mem_cons_self ..)
    have hbehind : ∀ d ∈ word, ¬ Delimits d := fun d hd => hword d (List.mem_cons_of_mem c hd)
    have henter : enter offset c = (none, .bare offset [c]) := by
      simp only [Delimits, not_or] at hc
      simp [enter, hc]
    have hline : ¬ Comments (c :: (word ++ rest)) := by
      rw [comments_cons] at hcomment ⊢
      cases word with
      | cons d word => exact hcomment
      | nil =>
        rintro (hc | ⟨hc, hd⟩)
        · exact hcomment (.inl hc)
        · have hdash := hend '-' hd
          exact absurd hdash (by unfold Delimits; decide)
    rw [Text.utf8Length_cons, ← Nat.add_assoc] at ih
    rw [List.cons_append, scan_between hline, henter, pushIf, scan_word hbehind,
      scan_word_end hend, ih, push]
    simp

end Itemized

/-! ## Every line has items -/

/-- Either the first quote that is not escaped closes what stands before it, or nothing does. -/
def QuoteEnds (line : List Char) : Prop :=
  (∃ raw text rest, line = raw ++ '"' :: rest ∧ Spells raw text) ∨ Unclosed line

theorem QuoteEnds.behind (used : List Char) {line : List Char} (h : QuoteEnds line)
    (hused : ∀ raw text, Spells raw text → ∃ longer, Spells (used ++ raw) longer) :
    QuoteEnds (used ++ line) := by
  rcases h with ⟨raw, text, rest, rfl, hraw⟩ | ⟨front, text, hfront, hline⟩
  · obtain ⟨longer, hlonger⟩ := hused raw text hraw
    exact .inl ⟨used ++ raw, longer, rest, (List.append_assoc ..).symm, hlonger⟩
  · obtain ⟨longer, hlonger⟩ := hused front text hfront
    refine .inr ⟨used ++ front, longer, hlonger, ?_⟩
    rcases hline with rfl | rfl
    · exact .inl rfl
    · exact .inr (List.append_assoc ..).symm

theorem Spells.behind_escape (c : Char) {raw text : List Char} (h : Spells raw text) :
    ∃ longer, Spells ('\\' :: c :: raw) longer := by
  by_cases hn : c = 'n'
  · subst hn
    exact ⟨_, .lineFeed h⟩
  by_cases ht : c = 't'
  · subst ht
    exact ⟨_, .tab h⟩
  · exact ⟨_, .escaped hn ht h⟩

/-- The recursion takes an escape and the character behind it in one step. -/
theorem quoteEnds (line : List Char) : QuoteEnds line := by
  match line with
  | [] => exact .inr ⟨[], [], .nil, .inl rfl⟩
  | c :: rest =>
    by_cases hquote : c = '"'
    · subst hquote
      exact .inl ⟨[], [], rest, rfl, .nil⟩
    by_cases hescape : c = '\\'
    · subst hescape
      match rest with
      | [] => exact .inr ⟨[], [], .nil, .inr rfl⟩
      | d :: rest =>
        have hrest := quoteEnds rest
        exact hrest.behind ['\\', d] fun raw text h => h.behind_escape d
    · have hrest := quoteEnds rest
      exact hrest.behind [c] fun raw text h => ⟨c :: text, .plain hquote hescape h⟩
termination_by line.length

theorem itemized_of_word {offset : Nat} {c : Char} {rest : List Char}
    (hcomment : ¬ Comments (c :: rest)) (hc : ¬ Delimits c)
    (hrest : ∀ after, after.length ≤ rest.length → ∀ start, ∃ items quote,
      Itemized start after items quote) :
    ∃ items quote, Itemized offset (c :: rest) items quote := by
  have hline : c :: rest = (c :: rest.takeWhile inWord) ++ rest.dropWhile inWord := by
    rw [List.cons_append, List.takeWhile_append_dropWhile]
  have hword : ∀ d ∈ c :: rest.takeWhile inWord, ¬ Delimits d := by
    intro d hd
    rcases List.mem_cons.mp hd with rfl | hd
    · exact hc
    · exact inWord_iff.mp (List.all_eq_true.mp List.all_takeWhile d hd)
  have hend : ∀ d ∈ (rest.dropWhile inWord).head?, Delimits d := by
    intro d hd
    have hnot := List.head?_dropWhile_not inWord rest
    rw [hd] at hnot
    have hnot : ¬ inWord d = true := by simpa using hnot
    exact Classical.not_not.mp fun h => hnot (inWord_iff.mpr h)
  have hwordComment : ¬ Comments (c :: rest.takeWhile inWord) := by
    intro hword
    have hprefix : (c :: rest.takeWhile inWord) <+: c :: rest :=
      List.cons_prefix_cons.mpr ⟨rfl, List.takeWhile_prefix inWord⟩
    exact hcomment (hword.imp (fun h => h.trans hprefix) fun h => h.trans hprefix)
  have hshort : (rest.dropWhile inWord).length ≤ rest.length :=
    (List.dropWhile_suffix inWord).length_le
  obtain ⟨items, quote, h⟩ := hrest _ hshort
    (offset + Text.utf8Length (c :: rest.takeWhile inWord))
  rw [hline]
  exact ⟨_, quote, .bare (List.cons_ne_nil _ _) hword hwordComment hend h⟩

theorem exists_itemized (offset : Nat) (line : List Char) :
    ∃ items quote, Itemized offset line items quote := by
  match line with
  | [] => exact ⟨[], none, .done⟩
  | c :: rest =>
    by_cases hcomment : Comments (c :: rest)
    · exact ⟨[], none, .comment hcomment⟩
    by_cases hc : Delimits c
    · rcases hc with hblank | rfl | rfl | rfl
      · obtain ⟨items, quote, h⟩ := exists_itemized (offset + c.utf8Size) rest
        exact ⟨items, quote, .blank hblank h⟩
      · obtain ⟨items, quote, h⟩ := exists_itemized (offset + 1) rest
        exact ⟨_, quote, .opening h⟩
      · obtain ⟨items, quote, h⟩ := exists_itemized (offset + 1) rest
        exact ⟨_, quote, .closing h⟩
      · rcases quoteEnds rest with ⟨raw, text, after, hrest, hraw⟩ | hraw
        · have hshort : after.length < rest.length := by
            rw [hrest, List.length_append, List.length_cons]
            omega
          obtain ⟨items, quote, h⟩ :=
            exists_itemized (offset + (1 + Text.utf8Length raw + 1)) after
          rw [hrest]
          exact ⟨_, quote, .quoted hraw h⟩
        · exact ⟨[], some offset, .unclosed hraw⟩
    · exact itemized_of_word hcomment hc fun after hshort start => exists_itemized start after
termination_by line.length
decreasing_by
  all_goals simp only [List.length_cons]
  all_goals omega

/-- The grammar and the scan give a line the same items, and the same quote that is never closed. -/
theorem itemized_iff {offset : Nat} {line : List Char} {items : List PlacedItem}
    {quote : Option Nat} :
    Itemized offset line items quote ↔ scanFrom offset .between line = ⟨items, quote⟩ := by
  refine ⟨Itemized.scan, fun hscan => ?_⟩
  obtain ⟨items', quote', h⟩ := exists_itemized offset line
  rw [h.scan, Scan.mk.injEq] at hscan
  obtain ⟨rfl, rfl⟩ := hscan
  exact h

/-! ## Where items stand -/

/-- A character stands at a byte offset of a line that starts at another. -/
def StandsAt (start : Nat) (line : List Char) (c : Char) (offset : Nat) : Prop :=
  ∃ before after, line = before ++ c :: after ∧
    offset = start + (String.ofList before).utf8ByteSize

theorem StandsAt.first (start : Nat) (c : Char) (rest : List Char) :
    StandsAt start (c :: rest) c start :=
  ⟨[], rest, rfl, by simp⟩

theorem StandsAt.behind {start offset : Nat} {used line : List Char} {c : Char}
    (h : StandsAt (start + Text.utf8Length used) line c offset) :
    StandsAt start (used ++ line) c offset := by
  obtain ⟨before, after, rfl, rfl⟩ := h
  refine ⟨used ++ before, after, (List.append_assoc ..).symm, ?_⟩
  rw [Text.utf8Length_eq, String.ofList_append, String.utf8ByteSize_append, Nat.add_assoc]

/-- Parentheses and the unclosed quote stand where the items say. -/
structure Located (start : Nat) (line : List Char) (items : List PlacedItem)
    (quote : Option Nat) : Prop where
  opening : ∀ offset, ⟨offset, .opening⟩ ∈ items → StandsAt start line '(' offset
  closing : ∀ offset, ⟨offset, .closing⟩ ∈ items → StandsAt start line ')' offset
  quote : ∀ offset, quote = some offset → StandsAt start line '"' offset

theorem Located.behind {start : Nat} (used : List Char) {line : List Char}
    {items : List PlacedItem} {quote : Option Nat}
    (h : Located (start + Text.utf8Length used) line items quote) :
    Located start (used ++ line) items quote :=
  ⟨fun offset hmem => (h.opening offset hmem).behind,
    fun offset hmem => (h.closing offset hmem).behind,
    fun offset hquote => (h.quote offset hquote).behind⟩

theorem Located.text {start offset : Nat} {line content : List Char} {items : List PlacedItem}
    {quote : Option Nat} (h : Located start line items quote) :
    Located start line (⟨offset, .text content⟩ :: items) quote := by
  refine ⟨fun o hmem => ?_, fun o hmem => ?_, h.quote⟩
  · exact h.opening o (by simpa using hmem)
  · exact h.closing o (by simpa using hmem)

theorem Itemized.located {start : Nat} {line : List Char} {items : List PlacedItem}
    {quote : Option Nat} (h : Itemized start line items quote) : Located start line items quote := by
  induction h with
  | done => exact ⟨nofun, nofun, nofun⟩
  | comment _ => exact ⟨nofun, nofun, nofun⟩
  | @blank start c rest items quote _ _ ih =>
    exact ih.behind [c]
  | @opening start rest items quote _ ih =>
    have hrest := ih.behind ['(']
    refine ⟨fun offset hmem => ?_, fun offset hmem => ?_, hrest.quote⟩
    · rcases List.mem_cons.mp hmem with heq | hmem
      · cases heq
        exact .first start '(' rest
      · exact hrest.opening offset hmem
    · exact hrest.closing offset (by simpa using hmem)
  | @closing start rest items quote _ ih =>
    have hrest := ih.behind [')']
    refine ⟨fun offset hmem => ?_, fun offset hmem => ?_, hrest.quote⟩
    · exact hrest.opening offset (by simpa using hmem)
    · rcases List.mem_cons.mp hmem with heq | hmem
      · cases heq
        exact .first start ')' rest
      · exact hrest.closing offset hmem
  | @quoted start raw text rest items quote _ _ ih =>
    have hlength : 1 + Text.utf8Length raw + 1 = Text.utf8Length ('"' :: (raw ++ ['"'])) := by
      rw [Text.utf8Length_cons, Text.utf8Length_append, Nat.add_assoc]
      rfl
    have hline : '"' :: (raw ++ '"' :: rest) = '"' :: (raw ++ ['"']) ++ rest := by simp
    rw [hlength] at ih
    rw [hline]
    exact (ih.behind _).text
  | @unclosed start raw _ =>
    refine ⟨nofun, nofun, fun offset hquote => ?_⟩
    cases hquote
    exact .first start '"' raw
  | bare _ _ _ _ _ ih => exact (ih.behind _).text

end ChainScript
