import Reckoner.Text.Case
import Reckoner.Text.Lines

/-!
# Locales

Number conventions and vocabulary by language, the catalog of them, and the search for one by its
code.
-/

namespace Reckoner

/-- Number conventions and vocabulary of one locale. -/
structure Locale where
  code : String
  /-- The language's own name. -/
  name : String
  decimalSeparator : Char
  groupSeparator : Char
  /-- Whether a currency symbol follows its amount. -/
  currencyAfter : Bool
  /-- Unit names of the language with the unit symbols they stand for. -/
  unitAliases : List (String × String)
  /-- Words that introduce the target of a conversion. -/
  conversionWords : List String
deriving DecidableEq, Repr

namespace Locale

/-- The unit symbol that a word of the language stands for. -/
def unitAlias (l : Locale) (word : String) : Option String :=
  (l.unitAliases.find? (·.1 == word)).map (·.2)

def isConversionWord (l : Locale) (word : String) : Bool := l.conversionWords.contains word

def english : Locale where
  code := "en-US"
  name := "English"
  decimalSeparator := '.'
  groupSeparator := ','
  currencyAfter := false
  unitAliases := []
  conversionWords := []

def spanish : Locale where
  code := "es"
  name := "Español"
  decimalSeparator := ','
  groupSeparator := '.'
  currencyAfter := true
  unitAliases := [("metros", "m"), ("kilómetros", "km"), ("millas", "mi"), ("kilogramos", "kg"),
    ("libras", "lb"), ("litros", "l"), ("horas", "h")]
  conversionWords := ["a", "en"]

def french : Locale where
  code := "fr"
  name := "Français"
  decimalSeparator := ','
  groupSeparator := ' '
  currencyAfter := true
  unitAliases := [("mètres", "m"), ("kilomètres", "km"), ("milles", "mi"), ("kilogrammes", "kg"),
    ("livres", "lb"), ("litres", "l"), ("heures", "h")]
  conversionWords := ["en", "vers"]

def german : Locale where
  code := "de"
  name := "Deutsch"
  decimalSeparator := ','
  groupSeparator := '.'
  currencyAfter := true
  unitAliases := [("Meter", "m"), ("Kilometer", "km"), ("Meilen", "mi"), ("Kilogramm", "kg"),
    ("Pfund", "lb"), ("Liter", "l"), ("Stunden", "h")]
  conversionWords := ["nach", "zu"]

def japanese : Locale where
  code := "ja"
  name := "日本語"
  decimalSeparator := '.'
  groupSeparator := ','
  currencyAfter := false
  unitAliases := [("メートル", "m"), ("キロメートル", "km"), ("キロ", "kg"), ("グラム", "g"),
    ("リットル", "l")]
  conversionWords := []

def russian : Locale where
  code := "ru"
  name := "Русский"
  decimalSeparator := ','
  groupSeparator := ' '
  currencyAfter := true
  unitAliases := [("м", "m"), ("км", "km"), ("кг", "kg"), ("г", "g"), ("л", "l"), ("ч", "h")]
  conversionWords := ["в"]

def belarusian : Locale where
  code := "be"
  name := "Беларуская"
  decimalSeparator := ','
  groupSeparator := ' '
  currencyAfter := true
  unitAliases := [("м", "m"), ("км", "km"), ("кг", "kg"), ("г", "g")]
  conversionWords := ["у"]

def simplifiedChinese : Locale where
  code := "zh-CN"
  name := "简体中文"
  decimalSeparator := '.'
  groupSeparator := ','
  currencyAfter := false
  unitAliases := [("米", "m"), ("公里", "km"), ("千克", "kg"), ("公斤", "kg"), ("克", "g"),
    ("升", "l")]
  conversionWords := ["到"]

def traditionalChinese : Locale where
  code := "zh-TW"
  name := "繁體中文"
  decimalSeparator := '.'
  groupSeparator := ','
  currencyAfter := false
  unitAliases := [("米", "m"), ("公里", "km"), ("公斤", "kg"), ("克", "g")]
  conversionWords := ["到"]

/-- Every locale, in the order in which they are listed and searched. -/
def catalog : List Locale :=
  [english, spanish, french, german, japanese, russian, belarusian, simplifiedChinese,
    traditionalChinese]

/-- The part of a locale code before the first hyphen. -/
def language (code : String) : String :=
  String.ofList (code.toList.takeWhile (· != '-'))

/-- The locale of a code, ignoring case, surrounding blanks and the difference between `_` and `-`. -/
def find? (code : String) : Option Locale :=
  let wanted := String.ofList
    ((Text.trim code.toList).map fun c => if c = '_' then '-' else c)
  match catalog.find? fun l => Text.sameIgnoringCase l.code wanted with
  | some l => some l
  -- the first locale of the language stands in for one that is not in the catalog
  | none => catalog.find? fun l => Text.sameIgnoringCase (language l.code) (language wanted)

instance : Inhabited Locale := ⟨english⟩

theorem mem_catalog_of_find? {code : String} {l : Locale} (h : find? code = some l) :
    l ∈ catalog := by
  unfold find? at h
  dsimp only at h
  split at h
  · next l' hl' =>
    cases h
    exact List.mem_of_find?_eq_some hl'
  · exact List.mem_of_find?_eq_some h

end Locale

end Reckoner
