import ReactiveMarkup.Unicode.Classes
import ReactiveMarkup.Unicode.Case

/-!
# Cutting text

Trimming, splitting and joining. Texts are strings at every interface and lists of characters inside
the readers; positions that are reported to a user count the bytes of the UTF-8 form.
-/

namespace ReactiveMarkup.Text

/-- Characters without the blanks at both ends. -/
def trimChars (text : List Char) : List Char :=
  ((text.dropWhile Unicode.isBlank).reverse.dropWhile Unicode.isBlank).reverse

/-- A text without the blanks at both ends. -/
def trim (text : String) : String := String.ofList (trimChars text.toList)

/-- Whether a text holds nothing but blanks. -/
def isBlank (text : String) : Bool := text.toList.all Unicode.isBlank

/-- The pieces between the characters that satisfy `isBreak`, empty pieces included. -/
def piecesBy (isBreak : Char → Bool) : List Char → List (List Char)
  | [] => [[]]
  | c :: rest =>
    match piecesBy isBreak rest with
    | [] => [[c]]
    | piece :: more => if isBreak c then [] :: piece :: more else (c :: piece) :: more

/-- The pieces of a text between the occurrences of one character. -/
def pieces (separator : Char) (text : List Char) : List (List Char) :=
  piecesBy (· == separator) text

/-- Texts in a row with a separator between neighbours. -/
def join (separator : String) (parts : List String) : String := String.intercalate separator parts

/-- The number of bytes of the UTF-8 form of some characters. -/
def byteLength (text : List Char) : Nat := (String.ofList text).utf8ByteSize

/-- The lower-case names in a list separated by commas and blanks. -/
def levelNames (text : String) : List String :=
  ((piecesBy (fun c => c == ',' || Unicode.isBlank c) text.toList).filter (!·.isEmpty)).map
    fun name => Unicode.lower (String.ofList name)

end ReactiveMarkup.Text
