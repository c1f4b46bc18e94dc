import CardCrucible.Codes
import CardCrucible.Outcome
import CardCrucible.Card

/-! # Faces — the names of cards and what is printed of them

    The image names of the cards are read from `cardData.json`, and the log of
    a game names cards by them.  The library that reads the file is not part of
    the app: it is a parameter here, of which nothing is known but that it finds
    the names that the file lists.

    `printCards` writes a list of cards in one line.  It takes the last
    character off before it closes the bracket, which is the last comma if
    there is a card and the opening bracket if there is none; the line can be
    read back all the same. -/

namespace CardModel

open Outcomes Codes

/-- `Rank.toString(rank:)`. -/
def Rank.toString : Rank → String
  | .ace => "Ace"
  | .two => "Two"
  | .three => "Three"
  | .four => "Four"
  | .five => "Five"
  | .six => "Six"
  | .seven => "Seven"
  | .eight => "Eight"
  | .nine => "Nine"
  | .ten => "Ten"
  | .jack => "Jack"
  | .queen => "Queen"
  | .king => "King"

/-- The cases of the switch of `fromString`. -/
def Rank.ofLowercased : String → Option Rank
  | "two" | "2" => some .two
  | "three" | "3" => some .three
  | "four" | "4" => some .four
  | "five" | "5" => some .five
  | "six" | "6" => some .six
  | "seven" | "7" => some .seven
  | "eight" | "8" => some .eight
  | "nine" | "9" => some .nine
  | "ten" | "10" => some .ten
  | "jack" | "j" => some .jack
  | "queen" | "q" => some .queen
  | "king" | "k" => some .king
  | "ace" | "a" => some .ace
  | _ => none

/-- `Rank.fromString(stringRank:)`; `lowercased` is the method of strings. -/
def Rank.fromString (lowercased : String → String) (stringRank : String) :
    Option Rank := Rank.ofLowercased (lowercased stringRank)

/-- **A rank is read from its name**, in any letters that `lowercased` takes to
    the same. -/
theorem Rank.fromString_toString {lowercased : String → String}
    (hlower : ∀ r : Rank, lowercased r.toString = r.toString.toLower)
    {r : Rank} {s : String} (h : lowercased s = lowercased r.toString) :
    Rank.fromString lowercased s = some r := by
  simp only [Rank.fromString]
  rw [h, hlower]
  cases r <;> decide +kernel

/-- What the cards use of a JSON library: a value under a key, and the string
    that a value holds. -/
structure JSONReader (JSON : Type) where
  subscript : JSON → String → JSON
  stringValue : JSON → String

/-- The entries of `cardData.json`: a suit, and a name for every rank. -/
def cardData : List (String × List (String × String)) :=
  [("Clubs",
    [("Ace", "AC"), ("Two", "2C"), ("Three", "3C"), ("Four", "4C"),
      ("Five", "5C"), ("Six", "6C"), ("Seven", "7C"), ("Eight", "8C"),
      ("Nine", "9C"), ("Ten", "10C"), ("Jack", "JC"), ("Queen", "QC"),
      ("King", "KC")]),
    ("Diamonds",
    [("Ace", "AD"), ("Two", "2D"), ("Three", "3D"), ("Four", "4D"),
      ("Five", "5D"), ("Six", "6D"), ("Seven", "7D"), ("Eight", "8D"),
      ("Nine", "9D"), ("Ten", "10D"), ("Jack", "JD"), ("Queen", "QD"),
      ("King", "KD")]),
    ("Hearts",
    [("Ace", "AH"), ("Two", "2H"), ("Three", "3H"), ("Four", "4H"),
      ("Five", "5H"), ("Six", "6H"), ("Seven", "7H"), ("Eight", "8H"),
      ("Nine", "9H"), ("Ten", "10H"), ("Jack", "JH"), ("Queen", "QH"),
      ("King", "KH")]),
    ("Spades",
    [("Ace", "AS"), ("Two", "2S"), ("Three", "3S"), ("Four", "4S"),
      ("Five", "5S"), ("Six", "6S"), ("Seven", "7S"), ("Eight", "8S"),
      ("Nine", "9S"), ("Ten", "10S"), ("Jack", "JS"), ("Queen", "QS"),
      ("King", "KS")])]

section Names

variable {JSON : Type}

/-- `json` is what the library makes of `cardData.json`: under the keys of the
    file are the names that it lists. -/
def JSONReader.ReadsCardData (lib : JSONReader JSON) (json : JSON) : Prop :=
  ∀ suit ∈ cardData, ∀ rank ∈ suit.2,
    lib.stringValue (lib.subscript (lib.subscript json suit.1) rank.1) = rank.2

/-- `getImageName(suit:rank:)`; the file may be missing. -/
def getImageName (lib : JSONReader JSON) (cardsJSON : Option JSON)
    (suit : Suit) (rank : Rank) : Outcome String :=
  match cardsJSON with
  | none => .trap "error trying to read in card image names"
  | some json =>
      .done (lib.stringValue
        (lib.subscript (lib.subscript json suit.rawValue) rank.toString))

namespace Card

/-- The image name of a card, when the file has been read in. -/
def imageName (lib : JSONReader JSON) (json : JSON) (c : Card) : String :=
  lib.stringValue
    (lib.subscript (lib.subscript json c.suit.rawValue) c.rank.toString)

/-- Once the file is read in the initializer finds the name. -/
theorem getImageName_some (lib : JSONReader JSON) (json : JSON) (c : Card) :
    getImageName lib (some json) c.suit c.rank
      = .done (c.imageName lib json) := rfl

def name (lib : JSONReader JSON) (json : JSON) (c : Card) : String :=
  c.imageName lib json

def description (c : Card) : String :=
  "Card is the " ++ c.rank.toString ++ " of " ++ c.suit.rawValue

/-- The loop of `printCards`. -/
def printLoop (lib : JSONReader JSON) (json : JSON) :
    String → List Card → String
  | msg, [] => msg
  | msg, card :: cards =>
      printLoop lib json (msg ++ ("\"" ++ card.imageName lib json ++ "\","))
        cards

/-- The line that `printCards(_:)` prints; `msg.prefix(msg.count-1)` drops the
    last character. -/
def printCards (lib : JSONReader JSON) (json : JSON) (cards : List Card) :
    String :=
  String.ofList (printLoop lib json "cards: [" cards).toList.dropLast ++ "]"

/-! ## Names -/

/-- What the file lists under two keys. -/
def listed (suit rank : String) : String :=
  ((cardData.lookup suit).bind (List.lookup rank)).getD ""

def listedName (c : Card) : String := listed c.suit.rawValue c.rank.toString

/-- The file has an entry for every card. -/
theorem exists_listed (c : Card) :
    ∃ suit ∈ cardData, suit.1 = c.suit.rawValue ∧
      ∃ rank ∈ suit.2, rank.1 = c.rank.toString ∧ rank.2 = c.listedName := by
  revert c
  decide +kernel

/-- A card has the name that is listed for it. -/
theorem imageName_eq {lib : JSONReader JSON} {json : JSON}
    (h : lib.ReadsCardData json) (c : Card) :
    c.imageName lib json = c.listedName := by
  obtain ⟨suit, hsuit, hkey, rank, hrank, hkey', hname⟩ := exists_listed c
  rw [← hname, ← h suit hsuit rank hrank, hkey, hkey']
  rfl

/-- The letters of a rank in a name. -/
def rankLetters (r : Rank) : List Char :=
  (listedName ⟨.clubs, r⟩).toList.dropLast

def suitLetter (s : Suit) : Char :=
  (listedName ⟨s, .ace⟩).toList.getLast?.getD ' '

theorem toList_listedName (c : Card) :
    c.listedName.toList = rankLetters c.rank ++ [suitLetter c.suit] := by
  revert c
  decide +kernel

/-- **A card is told from its name.** -/
theorem listedName_injective : Function.Injective listedName := by
  have hranks : Function.Injective rankLetters := by
    intro a b
    revert a b
    decide +kernel
  have hsuits : Function.Injective suitLetter := by
    intro a b
    revert a b
    decide +kernel
  intro c d heq
  have hlist := congrArg String.toList heq
  rw [toList_listedName, toList_listedName] at hlist
  obtain ⟨hrank, hsuit⟩ := List.append_inj' hlist rfl
  obtain ⟨s, r⟩ := c
  obtain ⟨s', r'⟩ := d
  rw [show r = r' from hranks hrank,
    show s = s' from hsuits (List.cons.inj hsuit).1]

/-- **A card is told from its description.** -/
theorem description_injective : Function.Injective description := by
  have hranks : Function.Injective Rank.toString := by
    intro a b
    revert a b
    decide +kernel
  -- the name of a rank ends at the first blank
  have hblank : ∀ r : Rank, ' ' ∉ r.toString.toList := by decide +kernel
  have hword : ∀ c : Card, c.description.toList
      = "Card is the ".toList
        ++ (c.rank.toString.toList ++ ' ' :: ("of ".toList
          ++ c.suit.rawValue.toList)) := by
    intro c
    have hof : " of ".toList = ' ' :: "of ".toList := by decide +kernel
    simp only [description]
    rw [String.toList_append, String.toList_append, String.toList_append, hof,
      List.append_assoc, List.append_assoc]
    rfl
  intro c d heq
  have hlist := congrArg String.toList heq
  rw [hword, hword] at hlist
  have hrest := List.append_cancel_left hlist
  have hname := eq_of_closed (hblank c.rank) (hblank d.rank) hrest
  have hrank := hranks (String.toList_injective hname)
  rw [hname] at hrest
  have hsuit := List.append_cancel_left
    (List.cons.inj (List.append_cancel_left hrest)).2
  have hraw := Suit.rawValue_injective (String.toList_injective hsuit)
  obtain ⟨s, r⟩ := c
  obtain ⟨s', r'⟩ := d
  rw [show r = r' from hrank, show s = s' from hraw]

/-! ## Printed lists -/

section Printed

variable (lib : JSONReader JSON) (json : JSON)

/-- A name in quotes. -/
def quoted (c : Card) : List Char :=
  '"' :: (c.imageName lib json).toList ++ ['"']

/-- What is printed of a card: its name in quotes, and a comma. -/
def item (c : Card) : List Char := quoted lib json c ++ [',']

theorem toList_printLoop :
    ∀ (cards : List Card) (msg : String),
      (printLoop lib json msg cards).toList
        = msg.toList ++ cards.flatMap (item lib json) := by
  intro cards
  induction cards with
  | nil => intro msg; exact (List.append_nil _).symm
  | cons card cards ih =>
      intro msg
      have hitem : ("\"" ++ card.imageName lib json ++ "\",").toList
          = item lib json card := by
        have hopen : "\"".toList = ['"'] := by decide +kernel
        have hclose : "\",".toList = ['"', ','] := by decide +kernel
        rw [String.toList_append, String.toList_append, hopen, hclose]
        simp only [item, quoted]
        rw [List.append_assoc, List.append_assoc]
        rfl
      show (printLoop lib json (msg ++ _) cards).toList = _
      rw [ih, String.toList_append, hitem, List.flatMap_cons,
        List.append_assoc]

/-- The last character that is printed of cards is a comma. -/
theorem flatMap_item_eq {cards : List Card} (h : cards ≠ []) :
    ∃ rest, cards.flatMap (item lib json) = rest ++ [','] := by
  rcases List.eq_nil_or_concat cards with hnil | ⟨l, c, hconcat⟩
  · exact absurd hnil h
  · refine ⟨l.flatMap (item lib json) ++ quoted lib json c, ?_⟩
    rw [hconcat, List.concat_eq_append, List.flatMap_append,
      List.flatMap_singleton, List.append_assoc]
    rfl

/-- The characters of the line. -/
theorem toList_printCards (cards : List Card) :
    (printCards lib json cards).toList
      = ("cards: [".toList ++ cards.flatMap (item lib json)).dropLast
        ++ [']'] := by
  simp only [printCards]
  rw [String.toList_append, String.toList_ofList, toList_printLoop]
  rfl

/-- The line of a list with a card: what is printed of the cards, without the
    last comma, in brackets. -/
theorem toList_printCards_of_ne_nil {cards : List Card} (h : cards ≠ []) :
    ∃ rest, cards.flatMap (item lib json) = rest ++ [','] ∧
      (printCards lib json cards).toList
        = "cards: [".toList ++ rest ++ [']'] := by
  obtain ⟨rest, hrest⟩ := flatMap_item_eq lib json h
  refine ⟨rest, hrest, ?_⟩
  rw [toList_printCards, hrest, ← List.append_assoc, List.dropLast_concat]

end Printed

section Reading

variable {lib : JSONReader JSON} {json : JSON}

/-- What is printed of cards is a prefix code. -/
theorem prefixCode_item (h : lib.ReadsCardData json) :
    PrefixCode (item lib json) := by
  refine prefixCode_closed [] (fun c d heq => ?_) (fun c => ?_)
  · obtain ⟨hname, -⟩ := List.append_inj' (List.cons.inj heq).2 rfl
    have hsame := String.toList_injective hname
    rw [imageName_eq h, imageName_eq h] at hsame
    exact listedName_injective hsame
  · simp only [quoted]
    rw [imageName_eq h]
    revert c
    decide +kernel

/-- **A printed list can be read back**: lists that print the same line are the
    same, the empty one included, whose line lacks its bracket. -/
theorem printCards_injective (h : lib.ReadsCardData json) :
    Function.Injective (printCards lib json) := by
  -- a line with a card is longer than that of no card
  have hlong : ∀ {cards : List Card}, cards ≠ [] →
      printCards lib json cards ≠ printCards lib json [] := by
    intro cards hne heq
    obtain ⟨rest, -, hline⟩ := toList_printCards_of_ne_nil lib json hne
    rw [heq] at hline
    have hlen := congrArg List.length hline
    rw [List.length_append, List.length_append] at hlen
    have hshort : (printCards lib json []).toList.length = 8 := by
      show (String.ofList "cards: [".toList.dropLast ++ "]").toList.length = 8
      decide +kernel
    have hopen : "cards: [".toList.length = 8 := by decide +kernel
    rw [hshort, hopen, List.length_singleton] at hlen
    omega
  intro l m heq
  by_cases hl : l = []
  · by_cases hm : m = []
    · rw [hl, hm]
    · rw [hl] at heq
      exact absurd heq.symm (hlong hm)
  · by_cases hm : m = []
    · rw [hm] at heq
      exact absurd heq (hlong hl)
    · obtain ⟨rest, hrest, hline⟩ := toList_printCards_of_ne_nil lib json hl
      obtain ⟨rest', hrest', hline'⟩ :=
        toList_printCards_of_ne_nil lib json hm
      rw [heq, hline'] at hline
      have hsame : rest' = rest :=
        List.append_cancel_left (List.append_cancel_right hline)
      refine (prefixCode_item h).flatMap_injective ?_
      show l.flatMap (item lib json) = m.flatMap (item lib json)
      rw [hrest, hrest', hsame]

end Reading

/-- JSON values as what is found along every path of keys, with an empty string
    where there is none. -/
def pathReader : JSONReader (List String → String) where
  subscript := fun json key path => json (key :: path)
  stringValue := fun json => json []

/-- `cardData.json` so read in. -/
def cardPaths : List String → String
  | [suit, rank] => listed suit rank
  | _ => ""

theorem readsCardData_paths : pathReader.ReadsCardData cardPaths := by
  have hall : ∀ suit ∈ cardData, ∀ rank ∈ suit.2,
      listed suit.1 rank.1 = rank.2 := by decide +kernel
  exact hall

theorem printCards_injective_paths :
    Function.Injective (printCards pathReader cardPaths) ∧
      printCards pathReader cardPaths [] = "cards: ]" ∧
      printCards pathReader cardPaths [⟨.hearts, .ten⟩, ⟨.clubs, .ace⟩]
        = "cards: [\"10H\",\"AC\"]" :=
  ⟨printCards_injective readsCardData_paths, by decide +kernel,
    by decide +kernel⟩

end Card

end Names

end CardModel
