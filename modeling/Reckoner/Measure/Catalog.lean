import Reckoner.Measure.Table

/-!
# The built-in units

Symbol, further names and factor of each unit, by category. Kelvin is the base of the temperatures;
Celsius and Fahrenheit have an offset.
-/

namespace Reckoner.Measure

/-- Symbol, further names, factor. -/
abbrev Row := String × List String × Float

def lengths : List Row :=
  [("m", ["meter", "meters", "metre", "metres"], 1.0),
    ("mm", ["millimeter", "millimeters"], 0.001),
    ("cm", ["centimeter", "centimeters"], 0.01),
    ("km", ["kilometer", "kilometers", "kilometre", "kilometres"], 1000.0),
    ("in", ["inch", "inches"], 0.0254),
    ("ft", ["foot", "feet"], 0.3048),
    ("yd", ["yard", "yards"], 0.9144),
    ("mi", ["mile", "miles"], 1609.344),
    ("nmi", ["nauticalmile", "nauticalmiles"], 1852.0)]

def masses : List Row :=
  [("g", ["gram", "grams"], 1.0),
    ("mg", ["milligram", "milligrams"], 0.001),
    ("kg", ["kilogram", "kilograms", "kilo", "kilos"], 1000.0),
    ("t", ["tonne", "tonnes"], 1e6),
    ("ct", ["carat", "carats"], 0.2),
    ("oz", ["ounce", "ounces"], 28.349523125),
    ("lb", ["lbs", "pound", "pounds"], 453.59237),
    ("st", ["stone", "stones"], 6350.29318)]

def times : List Row :=
  [("s", ["sec", "secs", "second", "seconds"], 1.0),
    ("ms", ["millisecond", "milliseconds"], 0.001),
    ("min", ["mins", "minute", "minutes"], 60.0),
    ("h", ["hr", "hrs", "hour", "hours"], 3600.0),
    ("day", ["days", "d"], 86400.0),
    ("week", ["weeks", "wk"], 604800.0),
    ("month", ["months"], 2592000.0),
    ("year", ["years", "yr", "yrs"], 31536000.0)]

def areas : List Row :=
  [("m2", ["sqm"], 1.0),
    ("cm2", [], 1e-4),
    ("km2", ["sqkm"], 1e6),
    ("ft2", ["sqft"], 0.09290304),
    ("are", ["ares"], 100.0),
    ("ha", ["hectare", "hectares"], 10000.0),
    ("acre", ["acres"], 4046.8564224)]

def volumes : List Row :=
  [("m3", [], 1.0),
    ("l", ["L", "liter", "liters", "litre", "litres"], 0.001),
    ("ml", ["mL", "milliliter", "milliliters"], 1e-6),
    ("gal", ["gallon", "gallons"], 0.003785411784),
    ("qt", ["quart", "quarts"], 0.000946352946),
    ("pt", ["pint", "pints"], 0.000473176473),
    ("cup", ["cups"], 0.0002365882365),
    ("tbsp", ["tablespoon", "tablespoons"], 1.478676478125e-5),
    ("tsp", ["teaspoon", "teaspoons"], 4.92892159375e-6)]

def angles : List Row :=
  [("rad", ["radian", "radians"], 1.0),
    ("deg", ["degree", "degrees"], 3.141592653589793 / 180.0)]

def dataSizes : List Row :=
  [("bit", ["bits", "b"], 1.0),
    ("B", ["byte", "bytes"], 8.0),
    ("KB", ["kilobyte", "kilobytes"], 8e3),
    ("MB", ["megabyte", "megabytes"], 8e6),
    ("GB", ["gigabyte", "gigabytes"], 8e9),
    ("TB", ["terabyte", "terabytes"], 8e12),
    ("KiB", ["kibibyte", "kibibytes"], 8192.0),
    ("MiB", ["mebibyte", "mebibytes"], 8388608.0),
    ("GiB", ["gibibyte", "gibibytes"], 8589934592.0)]

def speeds : List Row :=
  [("mps", [], 1.0),
    ("kph", ["kmh", "kmph"], 1000.0 / 3600.0),
    ("mph", [], 0.44704),
    ("kn", ["knot", "knots"], 1852.0 / 3600.0)]

def energies : List Row :=
  [("J", ["joule", "joules"], 1.0),
    ("kJ", ["kilojoule", "kilojoules"], 1000.0),
    ("cal", ["calorie", "calories"], 4.184),
    ("kcal", ["kilocalorie", "kilocalories"], 4184.0),
    ("Wh", [], 3600.0),
    ("kWh", [], 3.6e6)]

/-- The units without offset, by category. -/
def linear : List (Category × List Row) :=
  [(.length, lengths), (.mass, masses), (.time, times), (.area, areas), (.volume, volumes),
    (.angle, angles), (.data, dataSizes), (.speed, speeds), (.energy, energies)]

/-- The temperatures: symbol, further names, factor, offset. -/
def temperatures : List (String × List String × Float × Float) :=
  [("K", ["kelvin", "kelvins"], 1.0, 0.0),
    ("C", ["c", "celsius", "degC"], 1.0, 273.15),
    ("F", ["f", "fahrenheit", "degF"], 5.0 / 9.0, 459.67 * 5.0 / 9.0)]

/-- Every built-in unit with its further names, in the order in which they are entered. -/
def catalog : List (Measure × List String) :=
  (linear.flatMap fun (category, rows) =>
    rows.map fun (symbol, names, factor) => (⟨symbol, category, factor, 0⟩, names)) ++
  temperatures.map fun (symbol, names, factor, offset) =>
    (⟨symbol, .temperature, factor, offset⟩, names)

end Measure

def MeasureTable.builtin : MeasureTable :=
  Measure.catalog.foldl (fun t (m, names) => t.register m names) .empty

end Reckoner
