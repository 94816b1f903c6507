import Reckoner.Currency.RateSet
import Reckoner.Text.Case

/-!
# Naming currencies

Codes, symbols and words by which an expression names a currency.
-/

namespace Reckoner.Currency

/-- Codes that are recognized without any rates. -/
def known : List String :=
  ["USD", "EUR", "GBP", "JPY", "CAD", "AUD", "CHF", "CNY", "INR", "MXN", "BRL", "ZAR", "RUB",
    "KRW", "SEK", "NOK", "DKK", "SGD", "HKD", "NZD", "TRY", "PLN", "THB", "MYR", "IDR", "PHP",
    "CZK", "ILS", "CLP", "AED", "COP", "BYN", "UAH", "NGN", "VND", "BTC", "ETH", "BNB"]

def symbols : List (Char × String) :=
  [('$', "USD"), ('€', "EUR"), ('£', "GBP"), ('¥', "JPY"), ('₹', "INR"), ('₽', "RUB"),
    ('₩', "KRW"), ('₪', "ILS"), ('₱', "PHP"), ('฿', "THB"), ('₺', "TRY"), ('₴', "UAH"),
    ('₦', "NGN"), ('₫', "VND"), ('₿', "BTC")]

def words : List (String × String) :=
  [("dollar", "USD"), ("dollars", "USD"), ("euro", "EUR"), ("euros", "EUR"), ("yen", "JPY"),
    ("rupee", "INR"), ("rupees", "INR"), ("ruble", "RUB"), ("rubles", "RUB")]

/-- The symbol that a code is displayed with. -/
def symbol? (code : String) : Option Char := (symbols.find? (·.2 == code)).map (·.1)

def ofSymbol? (symbol : Char) : Option String := (symbols.find? (·.1 == symbol)).map (·.2)

/-- The code that a word names. Known codes are recognized in any case; another code of the rates in
use only when the word is all upper-case letters. -/
def resolve? (word : String) (rates : Option RateSet) : Option String :=
  match words.find? (·.1 == word) with
  | some entry => some entry.2
  | none =>
    let code := Text.asciiUpper word
    let isUpper := word.toList.all Char.isUpper
    if known.contains code || (isUpper && rates.any (·.contains code)) then some code else none

end Reckoner.Currency
