import ChainScript.Event.Printer
import ChainScript.Proofs.Event.Nesting
import ChainScript.Proofs.Event.Tokens

/-! # Printing and reading back

A printed event is read back as the event itself, unless a token of it stands without quotes and
starts a comment. Such a token ends the line: what is left of a sequence has a parenthesis open, and
nothing is left of the token itself. So an event is never read back as another one.

* `ReadsAs`: characters that are read as certain items, whatever follows.
* `StopsWith`: characters that are read as certain items up to a comment.
* `Event.readsAs_print`, `Event.print_stops`: which of the two a printed event is.
* `Event.interruption`: why an event that is not read back is none at all.
-/

namespace ChainScript
set_option autoImplicit false

/-! ## Tokens -/

/-- A token that is printed as it stands. -/
def StandsBare (text : String) : Prop :=
  text ≠ "" ∧ ∀ c ∈ text.toList,
    ¬ (Text.isBlank c = true ∨ c = '(' ∨ c = ')' ∨ c = '"' ∨ c = '\\')

/-- A token that is printed as it stands and starts with a number sign or two dashes. -/
def Vanishes (text : String) : Prop :=
  StandsBare text ∧ (['#'] <+: text.toList ∨ ['-', '-'] <+: text.toList)

theorem needsQuotes_iff {text : String} :
    Event.needsQuotes text.toList = true ↔ ¬ StandsBare text := by
  have hbare : Event.needsQuotes text.toList = false ↔ StandsBare text := by
    simp [Event.needsQuotes, StandsBare, Event.isQuoteworthy, and_assoc]
  rw [← hbare, Bool.not_eq_false]

theorem StandsBare.not_delimits {text : String} (h : StandsBare text) :
    ∀ c ∈ text.toList, ¬ Delimits c := by
  intro c hc hdelimits
  refine h.2 c hc ?_
  rcases hdelimits with hblank | hopening | hclosing | hquote
  · exact .inl hblank
  · exact .inr (.inl hopening)
  · exact .inr (.inr (.inl hclosing))
  · exact .inr (.inr (.inr (.inl hquote)))

/-- The characters of a token between quotes spell it. -/
theorem spells_escaped (cs : List Char) :
    ∃ raw, Spells raw cs ∧ ∀ rest, Event.printEscaped cs rest = raw ++ rest := by
  induction cs with
  | nil => exact ⟨[], .nil, fun _ => rfl⟩
  | cons c cs ih =>
    obtain ⟨raw, hraw, hprint⟩ := ih
    by_cases hc : c = '"' ∨ c = '\\'
    · have hn : c ≠ 'n' := by rcases hc with rfl | rfl <;> decide
      have ht : c ≠ 't' := by rcases hc with rfl | rfl <;> decide
      refine ⟨'\\' :: c :: raw, .escaped hn ht hraw, fun rest => ?_⟩
      rw [Event.printEscaped, if_pos hc, hprint]
      rfl
    · refine ⟨c :: raw, .plain (fun h => hc (.inl h)) (fun h => hc (.inr h)) hraw, fun rest => ?_⟩
      rw [Event.printEscaped, if_neg hc, hprint]
      rfl

/-! ## Characters that are read -/

/-- The characters before `rest` are read as these items, whatever `rest` is read as. -/
def ReadsAs (kinds : List Item) (line rest : List Char) : Prop :=
  ∀ offset, ∃ next placed, placed.map (·.item) = kinds ∧
    ∀ items quote, Itemized next rest items quote → Itemized offset line (placed ++ items) quote

/-- The characters are read as these items, and end in a comment. -/
def StopsWith (kinds : List Item) (line : List Char) : Prop :=
  ∀ offset, ∃ placed, placed.map (·.item) = kinds ∧ Itemized offset line placed none

/-- The characters behind a bare text that do not belong to it. -/
def Breaks (rest : List Char) : Prop := ∀ c ∈ rest.head?, Delimits c

namespace ReadsAs

variable {xs ys : List Item} {line middle rest : List Char}

theorem trans (hfirst : ReadsAs xs line middle) (hsecond : ReadsAs ys middle rest) :
    ReadsAs (xs ++ ys) line rest := by
  intro offset
  obtain ⟨next, placed, hplaced, hread⟩ := hfirst offset
  obtain ⟨next', placed', hplaced', hread'⟩ := hsecond next
  refine ⟨next', placed ++ placed', ?_, fun items quote h => ?_⟩
  · rw [List.map_append, hplaced, hplaced']
  · rw [List.append_assoc]
    exact hread _ _ (hread' items quote h)

theorem stops (hfirst : ReadsAs xs line rest) (hstops : StopsWith ys rest) :
    StopsWith (xs ++ ys) line := by
  intro offset
  obtain ⟨next, placed, hplaced, hread⟩ := hfirst offset
  obtain ⟨placed', hplaced', hread'⟩ := hstops next
  exact ⟨placed ++ placed', by rw [List.map_append, hplaced, hplaced'], hread _ _ hread'⟩

theorem opening (rest : List Char) : ReadsAs [.opening] ('(' :: rest) rest :=
  fun offset => ⟨offset + 1, [⟨offset, .opening⟩], rfl, fun _ _ h => .opening h⟩

theorem closing (rest : List Char) : ReadsAs [.closing] (')' :: rest) rest :=
  fun offset => ⟨offset + 1, [⟨offset, .closing⟩], rfl, fun _ _ h => .closing h⟩

theorem space (rest : List Char) : ReadsAs [] (' ' :: rest) rest :=
  fun offset => ⟨offset + ' '.utf8Size, [], rfl, fun _ _ h => .blank (by decide) h⟩

theorem token {text : String} (htext : ¬ Vanishes text) (hrest : Breaks rest) :
    ReadsAs [.text text.toList] (Event.printToken text.toList rest) rest := by
  intro offset
  by_cases hbare : StandsBare text
  · have hquotes : ¬ Event.needsQuotes text.toList = true := fun h => needsQuotes_iff.mp h hbare
    have hne : text.toList ≠ [] := by simpa using hbare.1
    have hcomment : ¬ Comments text.toList := fun h => htext ⟨hbare, h⟩
    refine ⟨offset + Text.utf8Length text.toList, [⟨offset, .text text.toList⟩], rfl,
      fun items quote h => ?_⟩
    rw [Event.printToken, if_neg hquotes]
    exact .bare hne hbare.not_delimits hcomment hrest h
  · obtain ⟨raw, hraw, hprint⟩ := spells_escaped text.toList
    refine ⟨offset + (1 + Text.utf8Length raw + 1), [⟨offset, .text text.toList⟩], rfl,
      fun items quote h => ?_⟩
    rw [Event.printToken, if_pos (needsQuotes_iff.mpr hbare), hprint]
    exact .quoted hraw h

end ReadsAs

theorem StopsWith.token {text : String} (htext : Vanishes text) (rest : List Char) :
    StopsWith [] (Event.printToken text.toList rest) := by
  intro offset
  have hquotes : ¬ Event.needsQuotes text.toList = true := fun h => needsQuotes_iff.mp h htext.1
  have hprefix : text.toList <+: text.toList ++ rest := List.prefix_append ..
  have hcomment : Comments (text.toList ++ rest) :=
    htext.2.imp (fun h => h.trans hprefix) fun h => h.trans hprefix
  rw [Event.printToken, if_neg hquotes]
  exact ⟨[], rfl, .comment hcomment⟩

/-! ## Printed events -/

namespace Event

theorem breaks_printMore (es : List Event) {rest : List Char} (hrest : Breaks rest) :
    Breaks (printMore es rest) := by
  cases es with
  | nil => exact hrest
  | cons e es =>
    rintro c hc
    cases hc
    exact .inl (by decide)

theorem breaks_closing (rest : List Char) : Breaks (')' :: rest) := by
  rintro c hc
  cases hc
  exact .inr (.inr (.inl rfl))

mutual

theorem readsAs_print (e : Event) (h : ∀ text ∈ e.tokens, ¬ Vanishes text) {rest : List Char}
    (hrest : Breaks rest) : ReadsAs e.items (e.print rest) rest := by
  match e with
  | .token text => exact ReadsAs.token (h text (List.mem_singleton_self text)) hrest
  | .seq [] => exact (ReadsAs.opening _).trans (.closing rest)
  | .seq (e :: es) =>
    have hfirst : ∀ text ∈ e.tokens, ¬ Vanishes text :=
      fun text htext => h text (List.mem_append_left _ htext)
    have hmore : ∀ text ∈ tokensAll es, ¬ Vanishes text :=
      fun text htext => h text (List.mem_append_right _ htext)
    have hend := breaks_closing rest
    have hclosed := (readsAs_printMore es hmore hend).trans (.closing rest)
    have hread := (ReadsAs.opening _).trans
      ((readsAs_print e hfirst (breaks_printMore es hend)).trans hclosed)
    rw [items, itemsAll, List.append_assoc]
    exact hread

theorem readsAs_printMore (es : List Event) (h : ∀ text ∈ tokensAll es, ¬ Vanishes text)
    {rest : List Char} (hrest : Breaks rest) :
    ReadsAs (itemsAll es) (printMore es rest) rest := by
  match es with
  | [] => exact fun offset => ⟨offset, [], rfl, fun _ _ h => h⟩
  | e :: es =>
    have hfirst : ∀ text ∈ e.tokens, ¬ Vanishes text :=
      fun text htext => h text (List.mem_append_left _ htext)
    have hmore : ∀ text ∈ tokensAll es, ¬ Vanishes text :=
      fun text htext => h text (List.mem_append_right _ htext)
    have hread := (readsAs_print e hfirst (breaks_printMore es hrest)).trans
      (readsAs_printMore es hmore hrest)
    exact (ReadsAs.space _).trans hread

end

/-- What is left of an event before a token that starts a comment: nothing of a token, and of a
sequence something with a parenthesis open. -/
def LeftOpen (kinds : List Item) : Event → Prop
  | .token _ => kinds = []
  | .seq _ => 0 < depth kinds

theorem LeftOpen.of_seq {kinds : List Item} (h : NoExcess 0 kinds) (es : List Event) :
    NoExcess 0 (.opening :: kinds) ∧ LeftOpen (.opening :: kinds) (.seq es) := by
  have hdepth := h kinds List.prefix_rfl
  refine ⟨noExcess_cons.mpr ⟨Int.le_refl 0, fun front hfront => ?_⟩, ?_⟩
  · have hfront := h front hfront
    simp only [Item.step]
    omega
  · simp only [LeftOpen, depth_cons, Item.step]
    omega

/-- Some of the tokens start a comment when they are printed. -/
def Interrupted (texts : List String) : Prop := ∃ text ∈ texts, Vanishes text

/-- Whether the comment starts in the first of some events or behind it, no closing parenthesis is
in excess before it. -/
theorem stopsWith_first {e : Event} {es : List Event} {rest : List Char} (hrest : Breaks rest)
    (hfirst : Interrupted e.tokens → ∃ kinds, NoExcess 0 kinds ∧ LeftOpen kinds e ∧
      StopsWith kinds (e.print (printMore es rest)))
    (hmore : Interrupted (tokensAll es) → ∃ kinds, NoExcess 0 kinds ∧
      StopsWith kinds (printMore es rest))
    (h : Interrupted (tokensAll (e :: es))) :
    ∃ kinds, NoExcess 0 kinds ∧ StopsWith kinds (e.print (printMore es rest)) := by
  by_cases he : Interrupted e.tokens
  · obtain ⟨kinds, hexcess, -, hstops⟩ := hfirst he
    exact ⟨kinds, hexcess, hstops⟩
  · obtain ⟨text, htext, hvanishes⟩ := h
    have hplain : ∀ text ∈ e.tokens, ¬ Vanishes text := fun text ht hv => he ⟨text, ht, hv⟩
    have htext : text ∈ tokensAll es :=
      (List.mem_append.mp htext).resolve_left fun ht => hplain text ht hvanishes
    obtain ⟨kinds, hexcess, hstops⟩ := hmore ⟨text, htext, hvanishes⟩
    obtain ⟨hitems, hdepth⟩ := balanced_items e
    have hread := readsAs_print e hplain (breaks_printMore es hrest)
    refine ⟨e.items ++ kinds, noExcess_append.mpr ⟨hitems, ?_⟩, hread.stops hstops⟩
    rwa [hdepth]

mutual

theorem print_stops (e : Event) (h : Interrupted e.tokens) (rest : List Char) :
    ∃ kinds, NoExcess 0 kinds ∧ LeftOpen kinds e ∧ StopsWith kinds (e.print rest) := by
  match e with
  | .token text =>
    obtain ⟨text', htext', hvanishes⟩ := h
    obtain rfl := List.mem_singleton.mp htext'
    exact ⟨[], noExcess_nil.mpr (Int.le_refl 0), rfl, .token hvanishes rest⟩
  | .seq [] =>
    obtain ⟨text, htext, -⟩ := h
    cases htext
  | .seq (e :: es) =>
    have hend := breaks_closing rest
    obtain ⟨kinds, hexcess, hstops⟩ := stopsWith_first hend (fun he => print_stops e he _)
      (fun hes => printMore_stops es hes hend) h
    obtain ⟨hexcess, hopen⟩ := LeftOpen.of_seq hexcess (e :: es)
    exact ⟨_, hexcess, hopen, (ReadsAs.opening _).stops hstops⟩

theorem printMore_stops (es : List Event) (h : Interrupted (tokensAll es)) {rest : List Char}
    (hrest : Breaks rest) : ∃ kinds, NoExcess 0 kinds ∧ StopsWith kinds (printMore es rest) := by
  match es with
  | [] =>
    obtain ⟨text, htext, -⟩ := h
    cases htext
  | e :: es =>
    obtain ⟨kinds, hexcess, hstops⟩ := stopsWith_first hrest (fun he => print_stops e he _)
      (fun hes => printMore_stops es hes hrest) h
    exact ⟨kinds, hexcess, (ReadsAs.space _).stops hstops⟩

end

/-! ## Reading back -/

theorem toList_display (e : Event) : e.display.toList = e.print [] :=
  String.toList_ofList

theorem parse_display_of_plain {e : Event} (h : ∀ text ∈ e.tokens, ¬ Vanishes text) :
    parse e.display = .ok e := by
  have hread : ReadsAs e.items (e.print []) [] := readsAs_print e h (by simp [Breaks])
  obtain ⟨next, placed, hplaced, hread⟩ := hread 0
  have hitems : Itemized 0 e.display.toList (placed ++ []) none := by
    rw [toList_display]
    exact hread [] none .done
  have hline : parseLine e.display 1 = .ok (some e) := by
    refine (parseLine_ok_iff hitems 1).mpr ⟨rfl, [e], ?_, rfl⟩
    rw [List.append_nil, hplaced, itemsAll_singleton]
  rw [parse, hline]

/-- The error that a printed event is read as when one of its tokens starts a comment. -/
def interruption : Event → ParseError.Cause
  | .token _ => .empty
  | .seq _ => .unclosed

theorem parse_display_of_interrupted {e : Event} (h : Interrupted e.tokens) :
    ∃ err, parse e.display = .error err ∧ err.cause = e.interruption := by
  obtain ⟨kinds, hexcess, hopen, hstops⟩ := print_stops e h []
  obtain ⟨placed, rfl, hitems⟩ := hstops 0
  rw [← toList_display] at hitems
  cases e with
  | token text =>
    have hline : parseLine (Event.token text).display 1 = .ok none :=
      (parseLine_ok_iff hitems 1).mpr ⟨rfl, [], hopen, rfl⟩
    exact ⟨⟨.empty, 1, 1⟩, by rw [parse, hline], rfl⟩
  | seq es =>
    obtain ⟨before, offset, after, hsplit, hafter⟩ := exists_innermost hopen
    have hverdict := Verdict.unclosed rfl hexcess hsplit hafter
    have hline := (parseLine_error_iff hitems 1).mpr ⟨_, _, hverdict, rfl⟩
    exact ⟨⟨.unclosed, 1, offset + 1⟩, by rw [parse, hline], rfl⟩

/-- A printed event is read back as itself exactly when none of its tokens that stand without quotes
starts with a number sign or two dashes, and otherwise it is not read at all. -/
theorem parse_display (e : Event) :
    (parse e.display = .ok e ↔ ∀ text ∈ e.tokens, StandsBare text →
      ¬ ['#'] <+: text.toList ∧ ¬ ['-', '-'] <+: text.toList) ∧
    (parse e.display ≠ .ok e ↔ ∃ err, parse e.display = .error err ∧
      err.cause = e.interruption) := by
  have hplain : (∀ text ∈ e.tokens, StandsBare text →
      ¬ ['#'] <+: text.toList ∧ ¬ ['-', '-'] <+: text.toList) ↔ ¬ Interrupted e.tokens := by
    simp [Interrupted, Vanishes]
  have hok : ¬ Interrupted e.tokens → parse e.display = .ok e := fun h =>
    parse_display_of_plain fun text htext hvanishes => h ⟨text, htext, hvanishes⟩
  have hnot : (∃ err, parse e.display = .error err ∧ err.cause = e.interruption) →
      parse e.display ≠ .ok e := by
    rintro ⟨err, herr, -⟩ hparse
    rw [hparse] at herr
    cases herr
  rw [hplain]
  refine ⟨⟨fun hparse h => ?_, hok⟩, fun hparse => ?_, hnot⟩
  · exact hnot (parse_display_of_interrupted h) hparse
  · exact parse_display_of_interrupted (Classical.not_not.mp fun h => hparse (hok h))

example : parse (display (.seq [.token "a", .seq [.token "--b"]])) = .error ⟨.unclosed, 1, 4⟩ :=
  rfl

end Event

end ChainScript
