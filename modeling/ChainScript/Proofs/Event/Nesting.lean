import ChainScript.Event.Parser
import ChainScript.Proofs.Event.Grammar

/-! # Nesting

The items of an event are its tokens and its parentheses, in order. A list of items is the items of
some events exactly when its parentheses balance, and of no more than one list of events. Nesting
finds these events, or the item that stands in their way.

* `Event.itemsAll`: the items of events.
* `Balanced`: no closing parenthesis is in excess, and none is missing.
* `Verdict`: what a scan comes to, said by its parentheses and its unclosed quote.
* `Verdict.nest_eq`, `Verdict.exists_verdict`: nesting comes to the verdict, and there is one.
-/

namespace ChainScript
set_option autoImplicit false

/-! ## Items of events -/

namespace Event

mutual

def items : Event → List Item
  | .token text => [.text text.toList]
  | .seq es => .opening :: (itemsAll es ++ [.closing])

def itemsAll : List Event → List Item
  | [] => []
  | e :: es => e.items ++ itemsAll es

end

theorem itemsAll_append (es fs : List Event) :
    itemsAll (es ++ fs) = itemsAll es ++ itemsAll fs := by
  induction es with
  | nil => rfl
  | cons e es ih => rw [List.cons_append, itemsAll, itemsAll, ih, List.append_assoc]

theorem itemsAll_singleton (e : Event) : itemsAll [e] = e.items := by
  simp [itemsAll]

end Event

/-! ## Balance -/

def Item.step : Item → Int
  | .opening => 1
  | .closing => -1
  | .text _ => 0

/-- How many parentheses the items open, less those that they close. -/
def depth : List Item → Int
  | [] => 0
  | item :: items => item.step + depth items

@[simp] theorem depth_nil : depth [] = 0 := rfl

@[simp] theorem depth_cons (item : Item) (items : List Item) :
    depth (item :: items) = item.step + depth items := rfl

@[simp] theorem depth_append (xs ys : List Item) : depth (xs ++ ys) = depth xs + depth ys := by
  induction xs with
  | nil => simp
  | cons x xs ih => rw [List.cons_append, depth_cons, depth_cons, ih, Int.add_assoc]

/-- Behind so many open parentheses, no closing one is in excess. -/
def NoExcess (opened : Int) (items : List Item) : Prop :=
  ∀ front, front <+: items → 0 ≤ opened + depth front

/-- Each parenthesis has its counterpart. -/
def Balanced (items : List Item) : Prop :=
  NoExcess 0 items ∧ depth items = 0

theorem noExcess_nil {opened : Int} : NoExcess opened [] ↔ 0 ≤ opened := by
  simp [NoExcess]

theorem noExcess_cons {opened : Int} {item : Item} {items : List Item} :
    NoExcess opened (item :: items) ↔ 0 ≤ opened ∧ NoExcess (opened + item.step) items := by
  constructor
  · intro h
    refine ⟨by simpa using h [] (List.nil_prefix ..), fun front hfront => ?_⟩
    have hlonger := h (item :: front) (List.cons_prefix_cons.mpr ⟨rfl, hfront⟩)
    rw [depth_cons] at hlonger
    omega
  · rintro ⟨hopened, h⟩ front hfront
    rcases List.prefix_cons_iff.mp hfront with rfl | ⟨shorter, rfl, hshorter⟩
    · simpa using hopened
    · have hbelow := h shorter hshorter
      rw [depth_cons]
      omega

theorem noExcess_append {opened : Int} {xs ys : List Item} :
    NoExcess opened (xs ++ ys) ↔ NoExcess opened xs ∧ NoExcess (opened + depth xs) ys := by
  induction xs generalizing opened with
  | nil =>
    have hstart : NoExcess opened ys → 0 ≤ opened := fun h => by
      simpa using h [] (List.nil_prefix ..)
    simpa [noExcess_nil] using hstart
  | cons x xs ih => rw [List.cons_append, noExcess_cons, noExcess_cons, ih, depth_cons,
      Int.add_assoc, and_assoc]

theorem NoExcess.opened_nonneg {opened : Int} {items : List Item} (h : NoExcess opened items) :
    0 ≤ opened := by
  simpa using h [] (List.nil_prefix ..)

/-- Either no closing parenthesis is in excess, or there is a first one, with nothing open before
it. -/
theorem noExcess_or_first {opened : Int} (hopened : 0 ≤ opened) (items : List PlacedItem) :
    NoExcess opened (items.map (·.item)) ∨ ∃ before offset after,
      items = before ++ ⟨offset, .closing⟩ :: after ∧ NoExcess opened (before.map (·.item)) ∧
        opened + depth (before.map (·.item)) = 0 := by
  induction items generalizing opened with
  | nil => exact .inl (noExcess_nil.mpr hopened)
  | cons first items ih =>
    by_cases hstep : 0 ≤ opened + first.item.step
    · rcases ih hstep with h | ⟨before, offset, after, rfl, hbefore, hzero⟩
      · exact .inl (noExcess_cons.mpr ⟨hopened, h⟩)
      · refine .inr ⟨first :: before, offset, after, rfl, ?_, ?_⟩
        · exact noExcess_cons.mpr ⟨hopened, hbefore⟩
        · rw [List.map_cons, depth_cons]
          omega
    · obtain ⟨offset, item⟩ := first
      cases item with
      | closing =>
        have hzero : opened = 0 := by
          simp only [Item.step] at hstep
          omega
        exact .inr ⟨[], offset, items, rfl, noExcess_nil.mpr hopened, by simpa using hzero⟩
      | opening | text content =>
        simp only [Item.step] at hstep
        omega

/-- Where more is opened than closed, there is a last parenthesis that stays open. -/
theorem exists_innermost {items : List PlacedItem} (h : 0 < depth (items.map (·.item))) :
    ∃ before offset after, items = before ++ ⟨offset, .opening⟩ :: after ∧
      Balanced (after.map (·.item)) := by
  have hsuffixes : (∃ before offset after, items = before ++ ⟨offset, .opening⟩ :: after ∧
      Balanced (after.map (·.item))) ∨ ∀ back, back <:+ items → depth (back.map (·.item)) ≤ 0 := by
    clear h
    induction items with
    | nil =>
      refine .inr fun back hback => ?_
      rw [List.suffix_nil.mp hback]
      exact Int.le_refl 0
    | cons first items ih =>
      rcases ih with ⟨before, offset, after, rfl, hafter⟩ | hbacks
      · exact .inl ⟨first :: before, offset, after, rfl, hafter⟩
      by_cases hdepth : depth ((first :: items).map (·.item)) ≤ 0
      · refine .inr fun back hback => ?_
        rcases List.suffix_cons_iff.mp hback with rfl | hback
        · exact hdepth
        · exact hbacks back hback
      · have hrest := hbacks items List.suffix_rfl
        obtain ⟨offset, item⟩ := first
        rw [List.map_cons, depth_cons] at hdepth
        cases item with
        | opening =>
          simp only [Item.step] at hdepth
          have hzero : depth (items.map (·.item)) = 0 := by omega
          refine .inl ⟨[], offset, items, rfl, ?_, hzero⟩
          rintro front ⟨back, hitems⟩
          obtain ⟨front', back', rfl, rfl, rfl⟩ := List.map_eq_append_iff.mp hitems.symm
          have hback := hbacks back' (List.suffix_append ..)
          rw [List.map_append, depth_append] at hzero
          omega
        | closing | text content =>
          simp only [Item.step] at hdepth
          omega
  rcases hsuffixes with hfound | hbacks
  · exact hfound
  · have hall := hbacks items List.suffix_rfl
    omega

/-! ## Nesting, item by item -/

namespace Event

variable {quote : Option Nat} {groups : List OpenGroup} {level : List Event}
  {placed rest : List PlacedItem}

/-- The items read when these groups are open and this level is read. -/
def openItems : List OpenGroup → List Event → List Item
  | [], level => itemsAll level.reverse
  | group :: groups, level => openItems groups group.before ++ .opening :: itemsAll level.reverse

theorem openItems_cons (groups : List OpenGroup) (e : Event) (level : List Event) :
    openItems groups (e :: level) = openItems groups level ++ e.items := by
  cases groups with
  | nil => rw [openItems, openItems, List.reverse_cons, itemsAll_append, itemsAll_singleton]
  | cons group groups =>
    simp [openItems, itemsAll_append, itemsAll_singleton]

/-- Items without an excess are read on and on, and nothing of them is lost. -/
theorem nest_through (h : NoExcess groups.length (placed.map (·.item))) :
    ∃ groups' level', (groups'.length : Int) = groups.length + depth (placed.map (·.item)) ∧
      openItems groups' level' = openItems groups level ++ placed.map (·.item) ∧
      ∀ quote rest, nest quote groups level (placed ++ rest) = nest quote groups' level' rest := by
  induction placed generalizing groups level with
  | nil => exact ⟨groups, level, by simp, by simp, fun _ _ => rfl⟩
  | cons first placed ih =>
    obtain ⟨offset, item⟩ := first
    obtain ⟨-, h⟩ := noExcess_cons.mp h
    cases item with
    | opening =>
      obtain ⟨groups', level', hlength, hitems, hnest⟩ :=
        @ih (⟨level, offset⟩ :: groups) [] (by simpa [Item.step] using h)
      refine ⟨groups', level', ?_, ?_, fun quote rest => ?_⟩
      · simp only [List.length_cons, List.map_cons, depth_cons, Item.step] at hlength ⊢
        omega
      · simpa [openItems, itemsAll] using hitems
      · rw [List.cons_append, nest, hnest]
    | closing =>
      cases groups with
      | nil =>
        have hnonneg := h.opened_nonneg
        simp [Item.step] at hnonneg
      | cons group groups =>
        have hlength : ((group :: groups).length : Int) + Item.closing.step = groups.length := by
          simp only [List.length_cons, Item.step]
          omega
        rw [hlength] at h
        obtain ⟨groups', level', hlength', hitems, hnest⟩ :=
          @ih groups (.seq level.reverse :: group.before) h
        refine ⟨groups', level', ?_, ?_, fun quote rest => ?_⟩
        · rw [hlength', List.map_cons, depth_cons, ← Int.add_assoc, hlength]
        · simpa [openItems, openItems_cons, items] using hitems
        · rw [List.cons_append, nest, hnest]
    | text content =>
      obtain ⟨groups', level', hlength, hitems, hnest⟩ :=
        @ih groups (.token (String.ofList content) :: level) (by simpa [Item.step] using h)
      refine ⟨groups', level', ?_, ?_, fun quote rest => ?_⟩
      · simpa [Item.step] using hlength
      · simpa [openItems_cons, items] using hitems
      · rw [List.cons_append, nest, hnest]

mutual

/-- The items of an event, wherever they stand, are read as that event. -/
theorem nest_event (e : Event) {groups : List OpenGroup} {level : List Event}
    {placed : List PlacedItem} (h : placed.map (·.item) = e.items) (rest : List PlacedItem) :
    nest quote groups level (placed ++ rest) = nest quote groups (e :: level) rest := by
  match e with
  | .token text =>
    obtain ⟨⟨offset, _⟩, rfl, rfl⟩ := List.map_eq_singleton_iff.mp h
    rw [List.singleton_append, nest, String.ofList_toList]
  | .seq es =>
    obtain ⟨⟨offset, _⟩, behind, rfl, rfl, hbehind⟩ := List.map_eq_cons_iff.mp h
    obtain ⟨middle, closing, rfl, hmiddle, hclosing⟩ := List.map_eq_append_iff.mp hbehind
    obtain ⟨⟨offset', _⟩, rfl, rfl⟩ := List.map_eq_singleton_iff.mp hclosing
    rw [List.cons_append, nest, List.append_assoc, nest_events es hmiddle]
    simp [nest]

theorem nest_events (es : List Event) {groups : List OpenGroup} {level : List Event}
    {placed : List PlacedItem} (h : placed.map (·.item) = itemsAll es) (rest : List PlacedItem) :
    nest quote groups level (placed ++ rest) = nest quote groups (es.reverse ++ level) rest := by
  match es with
  | [] =>
    obtain rfl := List.map_eq_nil_iff.mp h
    rfl
  | e :: es =>
    obtain ⟨first, more, rfl, hfirst, hmore⟩ := List.map_eq_append_iff.mp h
    rw [List.append_assoc, nest_event e hfirst, nest_events es hmore]
    simp

end

theorem nest_done (es : List Event) (h : placed.map (·.item) = itemsAll es) :
    nest none [] [] placed = .ok es := by
  have hnest : nest none [] [] (placed ++ []) = nest none [] (es.reverse ++ []) [] :=
    nest_events es h []
  rw [List.append_nil] at hnest
  rw [hnest, nest]
  simp

/-- Items without an excess leave groups open, or make up a level of events. -/
theorem nest_end (h : NoExcess 0 (placed.map (·.item))) :
    ∃ groups level, (groups.length : Int) = depth (placed.map (·.item)) ∧
      openItems groups level = placed.map (·.item) ∧
      ∀ quote rest, nest quote [] [] (placed ++ rest) = nest quote groups level rest := by
  obtain ⟨groups, level, hlength, hitems, hnest⟩ := @nest_through [] [] placed h
  exact ⟨groups, level, by simpa using hlength, by simpa [openItems, itemsAll] using hitems, hnest⟩

theorem nest_excess {before after : List PlacedItem} {offset : Nat}
    (h : Balanced (before.map (·.item))) :
    nest quote [] [] (before ++ ⟨offset, .closing⟩ :: after) = .error (.unexpectedClose, offset) := by
  obtain ⟨groups, level, hlength, -, hnest⟩ := nest_end h.1
  rw [h.2, Int.natCast_eq_zero, List.length_eq_zero_iff] at hlength
  rw [hnest, hlength, nest]

/-- Items, all at one place. -/
def place (items : List Item) : List PlacedItem := items.map (PlacedItem.mk 0)

theorem map_item_place (items : List Item) : (place items).map (·.item) = items := by
  simp [place, Function.comp_def]

/-- Events are told apart by their items. -/
theorem itemsAll_inj {es fs : List Event} (h : itemsAll es = itemsAll fs) : es = fs := by
  have hes := nest_done es (map_item_place (itemsAll es))
  have hfs := nest_done fs ((map_item_place (itemsAll es)).trans h)
  rw [hes] at hfs
  exact Except.ok.inj hfs

/-- Items balance exactly when they are the items of some events. -/
theorem balanced_iff {items : List Item} : Balanced items ↔ ∃ es, items = itemsAll es := by
  rw [← map_item_place items]
  constructor
  · rintro ⟨hexcess, hdepth⟩
    obtain ⟨groups, level, hlength, hitems, -⟩ := nest_end hexcess
    rw [hdepth, Int.natCast_eq_zero, List.length_eq_zero_iff] at hlength
    rw [hlength, openItems] at hitems
    exact ⟨level.reverse, hitems.symm⟩
  · rintro ⟨es, h⟩
    have hdone := nest_done es h
    rcases noExcess_or_first (Int.le_refl 0) (place items) with hexcess |
      ⟨before, offset, after, hsplit, hbefore, hzero⟩
    · obtain ⟨groups, level, hlength, -, hnest⟩ := nest_end hexcess
      have hend := hnest none []
      rw [List.append_nil, hdone] at hend
      cases groups with
      | nil => exact ⟨hexcess, by simpa using hlength.symm⟩
      | cons group groups =>
        rw [nest] at hend
        cases hend
    · rw [hsplit, nest_excess ⟨hbefore, by simpa using hzero⟩] at hdone
      cases hdone

theorem balanced_items (e : Event) : Balanced e.items :=
  balanced_iff.mpr ⟨[e], (itemsAll_singleton e).symm⟩

end Event

/-! ## Verdicts -/

/-- What a scan comes to: the events that its items are; or its first closing parenthesis in excess;
or else its unclosed quote; or else its last parenthesis that stays open. -/
inductive Verdict (items : List PlacedItem) (quote : Option Nat) :
    Except (ParseError.Cause × Nat) (List Event) → Prop where
  | events {es : List Event} (hquote : quote = none)
      (hitems : items.map (·.item) = Event.itemsAll es) : Verdict items quote (.ok es)
  | unexpectedClose {before after : List PlacedItem} {offset : Nat}
      (hitems : items = before ++ ⟨offset, .closing⟩ :: after)
      (hbefore : Balanced (before.map (·.item))) :
      Verdict items quote (.error (.unexpectedClose, offset))
  | unterminated {offset : Nat} (hquote : quote = some offset)
      (hitems : NoExcess 0 (items.map (·.item))) :
      Verdict items quote (.error (.unterminated, offset))
  | unclosed {before after : List PlacedItem} {offset : Nat} (hquote : quote = none)
      (hexcess : NoExcess 0 (items.map (·.item)))
      (hitems : items = before ++ ⟨offset, .opening⟩ :: after)
      (hafter : Balanced (after.map (·.item))) :
      Verdict items quote (.error (.unclosed, offset))

namespace Verdict

variable {items : List PlacedItem} {quote : Option Nat}
  {r : Except (ParseError.Cause × Nat) (List Event)}

theorem nest_eq (h : Verdict items quote r) : Event.nest quote [] [] items = r := by
  cases h with
  | @events es hquote hitems =>
    rw [hquote]
    exact Event.nest_done es hitems
  | unexpectedClose hitems hbefore =>
    rw [hitems]
    exact Event.nest_excess hbefore
  | unterminated hquote hitems =>
    obtain ⟨groups, level, -, -, hnest⟩ := Event.nest_end hitems
    have hend := hnest quote []
    rw [List.append_nil] at hend
    rw [hend, hquote, Event.nest]
  | @unclosed before after offset hquote hexcess hitems hafter =>
    obtain ⟨es, hes⟩ := Event.balanced_iff.mp hafter
    rw [hitems, List.map_append] at hexcess
    obtain ⟨groups, level, -, -, hnest⟩ := Event.nest_end (noExcess_append.mp hexcess).1
    have hinner : Event.nest none (⟨level, offset⟩ :: groups) [] (after ++ []) =
        Event.nest none (⟨level, offset⟩ :: groups) (es.reverse ++ []) [] :=
      Event.nest_events es hes []
    rw [List.append_nil] at hinner
    rw [hquote, hitems, hnest, Event.nest, hinner, Event.nest]

theorem exists_verdict (items : List PlacedItem) (quote : Option Nat) :
    ∃ r, Verdict items quote r := by
  rcases noExcess_or_first (Int.le_refl 0) items with hexcess |
    ⟨before, offset, after, hitems, hbefore, hzero⟩
  · cases quote with
    | some offset => exact ⟨_, .unterminated rfl hexcess⟩
    | none =>
      by_cases hdepth : depth (items.map (·.item)) = 0
      · obtain ⟨es, hes⟩ := Event.balanced_iff.mp ⟨hexcess, hdepth⟩
        exact ⟨_, .events rfl hes⟩
      · have hnonneg := hexcess _ List.prefix_rfl
        have hpos : 0 < depth (items.map (·.item)) := by omega
        obtain ⟨before, offset, after, hitems, hafter⟩ := exists_innermost hpos
        exact ⟨_, .unclosed rfl hexcess hitems hafter⟩
  · exact ⟨_, .unexpectedClose hitems ⟨hbefore, by simpa using hzero⟩⟩

end Verdict

/-! ## Lines -/

/-- The character that an error of a line points at. -/
def ParseError.Cause.mark : ParseError.Cause → Option Char
  | .unexpectedClose => some ')'
  | .unclosed => some '('
  | .unterminated => some '"'
  | .empty => none

theorem Verdict.standsAt {line : List Char} {items : List PlacedItem} {quote : Option Nat}
    {cause : ParseError.Cause} {offset : Nat} (hitems : Itemized 0 line items quote)
    (h : Verdict items quote (.error (cause, offset))) :
    ∃ c, cause.mark = some c ∧ StandsAt 0 line c offset := by
  have hlocated := hitems.located
  cases h with
  | unexpectedClose hsplit _ =>
    exact ⟨')', rfl, hlocated.closing offset (by rw [hsplit]; simp)⟩
  | unterminated hquote _ => exact ⟨'"', rfl, hlocated.quote offset hquote⟩
  | unclosed _ _ hsplit _ => exact ⟨'(', rfl, hlocated.opening offset (by rw [hsplit]; simp)⟩

namespace Event

theorem parseLine_eq {text : String} {items : List PlacedItem} {quote : Option Nat}
    {r : Except (ParseError.Cause × Nat) (List Event)} (hitems : Itemized 0 text.toList items quote)
    (hr : Verdict items quote r) (line : Nat) :
    parseLine text line = match r with
      | .ok es => .ok (ofTopLevel es)
      | .error (cause, offset) => .error ⟨cause, line, offset + 1⟩ := by
  have hscan : Scan.ofLine text.toList = ⟨items, quote⟩ := hitems.scan
  rw [parseLine, hscan, hr.nest_eq]
  rcases r with ⟨cause, offset⟩ | es <;> rfl

section Grammar

variable {text : String} {items : List PlacedItem} {quote : Option Nat}
  (hitems : Itemized 0 text.toList items quote) (line : Nat)
include hitems

theorem parseLine_ok_iff {r : Option Event} :
    parseLine text line = .ok r ↔ quote = none ∧
      ∃ es, items.map (·.item) = itemsAll es ∧ r = ofTopLevel es := by
  constructor
  · intro h
    obtain ⟨v, hv⟩ := Verdict.exists_verdict items quote
    rw [parseLine_eq hitems hv] at h
    cases hv with
    | events hquote hes =>
      cases h
      exact ⟨hquote, _, hes, rfl⟩
    | unexpectedClose | unterminated | unclosed => cases h
  · rintro ⟨hquote, es, hes, rfl⟩
    exact parseLine_eq hitems (.events hquote hes) line

theorem parseLine_error_iff {err : ParseError} :
    parseLine text line = .error err ↔
      ∃ cause offset, Verdict items quote (.error (cause, offset)) ∧
        err = ⟨cause, line, offset + 1⟩ := by
  constructor
  · intro h
    obtain ⟨v, hv⟩ := Verdict.exists_verdict items quote
    rw [parseLine_eq hitems hv] at h
    rcases v with ⟨cause, offset⟩ | es
    · cases h
      exact ⟨cause, offset, hv, rfl⟩
    · cases h
  · rintro ⟨cause, offset, hv, rfl⟩
    exact parseLine_eq hitems hv line

end Grammar

/-- A line has its items by the grammar and no others. It is read exactly when its quotes are closed
and its parentheses balance, and then as the one list of events that has these items: as nothing, as
the event itself if there is one, or as the sequence of them. Otherwise the error is the verdict on
its items, and its column is 1 more than the bytes before the character that it points at. -/
theorem parseLine_grammar (text : String) (line : Nat) :
    ∃ items quote,
      (∀ items' quote', Itemized 0 text.toList items' quote' ↔ items' = items ∧ quote' = quote) ∧
      ((∃ r, parseLine text line = .ok r) ↔ quote = none ∧ Balanced (items.map (·.item))) ∧
      (∀ r, parseLine text line = .ok r ↔ quote = none ∧
        ∃ es, (∀ es', items.map (·.item) = itemsAll es' ↔ es' = es) ∧
          r = match es with
            | [] => none
            | [e] => some e
            | es => some (.seq es)) ∧
      ∀ err, parseLine text line = .error err ↔
        ∃ cause c offset, Verdict items quote (.error (cause, offset)) ∧ cause.mark = some c ∧
          StandsAt 0 text.toList c offset ∧ err = ⟨cause, line, 1 + offset⟩ := by
  obtain ⟨items, quote, hitems⟩ := exists_itemized 0 text.toList
  refine ⟨items, quote, fun items' quote' => ?_, ?_, fun r => ?_, fun err => ?_⟩
  · rw [itemized_iff, hitems.scan, Scan.mk.injEq, eq_comm, eq_comm (b := quote')]
  · constructor
    · rintro ⟨r, h⟩
      obtain ⟨hquote, es, hes, -⟩ := (parseLine_ok_iff hitems line).mp h
      exact ⟨hquote, balanced_iff.mpr ⟨es, hes⟩⟩
    · rintro ⟨hquote, hbalanced⟩
      obtain ⟨es, hes⟩ := balanced_iff.mp hbalanced
      exact ⟨_, (parseLine_ok_iff hitems line).mpr ⟨hquote, es, hes, rfl⟩⟩
  · rw [parseLine_ok_iff hitems]
    constructor
    · rintro ⟨hquote, es, hes, rfl⟩
      refine ⟨hquote, es, fun es' => ?_, by rcases es with _ | ⟨e, _ | ⟨f, es⟩⟩ <;> rfl⟩
      rw [hes]
      exact ⟨fun h => (itemsAll_inj h).symm, fun h => by rw [h]⟩
    · rintro ⟨hquote, es, hes, rfl⟩
      exact ⟨hquote, es, (hes es).mpr rfl, by rcases es with _ | ⟨e, _ | ⟨f, es⟩⟩ <;> rfl⟩
  · rw [parseLine_error_iff hitems]
    constructor
    · rintro ⟨cause, offset, hv, rfl⟩
      obtain ⟨c, hmark, hstands⟩ := hv.standsAt hitems
      exact ⟨cause, c, offset, hv, hmark, hstands, by rw [Nat.add_comm]⟩
    · rintro ⟨cause, c, offset, hv, -, -, rfl⟩
      exact ⟨cause, offset, hv, by rw [Nat.add_comm]⟩

/-- Columns count bytes, and the letter before the quote has two. -/
example : parseLine "(é \"b" 3 = .error ⟨.unterminated, 3, 5⟩ := rfl

end Event

end ChainScript
