import PixelCalc.Exchange.Failure

/-!
# The manual

An overview and one page for each category.

- `Manual.Category.ofName?`: categories have several names, which ignore case.
- `Manual.page`: the page of a category.
-/

namespace PixelCalc
namespace Manual

/-- The pages of the manual. -/
inductive Category where
  | language
  | operators
  | functions
  | types
  | errors
deriving Repr, DecidableEq

namespace Category

/-- The names of a category, in lower case. -/
def names : Category → List String
  | language => ["syntax"]
  | operators => ["operators", "ops", "precedence"]
  | functions => ["functions", "function", "fns"]
  | types => ["types", "type", "matrices"]
  | errors => ["errors", "error"]

/-- Every category once. -/
def all : List Category :=
  [language, operators, functions, types, errors]

theorem mem_all (category : Category) : category ∈ all := by
  cases category <;> decide

/-- The category with a given name. Only letters of ASCII become a letter of one of the names when
they are put in lower case. -/
def ofName? (name : String) : Option Category :=
  all.find? fun category => category.names.contains name.toLower

end Category

/-- The list of categories, with a few examples. -/
def overview : String :=
"PTMS DOCUMENTATION

PTMS is an expression language over numbers and multi-channel image matrices.
Expressions combine literals, variables, operators and function calls, and
evaluate to a number, a matrix, a boolean, a range or an error.

DOCUMENTATION CATEGORIES

  syntax            Literals, names, brackets, method calls and indexing
  operators         Arithmetic, power, ranges, comparisons, assignment, precedence
  functions         Built-in functions and their overloads
  types             Value types and matrix tags
  errors            How errors are reported and propagated

QUICK REFERENCE

  2 + 3 * 4         Arithmetic (14)
  x * 0.5           Scalars broadcast over every matrix channel
  x.abs()           Method call, same as abs(x)
  x[0, 1]           Indexing, same as x.SubMat(0, 1)
  x > 128           Comparison, a Mask for matrices
  y = x / 255       Assignment

Run 'ptms doc <category>' for detailed documentation.
"

/-- Literals, names, brackets, calls and ranges. -/
def languagePage : String :=
"SYNTAX - Literals, Names and Brackets

NUMBERS
  42   3.14   1.   -5
    Double-precision literals. A leading '-' is part of the literal only when
    no value comes before it: 'x-5' subtracts, '(-5)' is a literal.

NAMES
  x   threshold   GetChannel
    Letters only. A name on its own reads a variable; a name followed by
    brackets calls a function. Function names ignore case.

METHOD CALLS
  value.function(args)
    The value before the dot becomes the first argument.

    Example:
      1234.abs()              Same as abs(1234)
      x.clamp(0, 1)           Same as clamp(x, 0, 1)

INDEXING
  x[y]   x[y, x]   x[y, x, channel]
    Square brackets call SubMat. Each index is a number or a range.

    Example:
      img[0, 0, 2]            Third channel of the top-left pixel
      img[10..20, ..]         Rows 10 to 19, every column
      img[.., .., 0]          First channel

RANGES
  a..b   a:b   ..b   a..   ^n
    Half-open ranges. Negative numbers and '^n' count from the end.

    Example:
      img[..^1]               Every row but the last

WHITESPACE
    Spaces are ignored. Other whitespace is not part of the language.
"

/-- Operators and their precedence. -/
def operatorsPage : String :=
"OPERATORS - Arithmetic, Comparison and Assignment

ARITHMETIC OPERATORS
  +     Addition
  -     Subtraction
  *     Multiplication (element-wise for two matrices)
  /     Division
  %     Remainder
  ** ^  Power

  Type behavior:
    Number op Number  = Number
    Number op Mat     = Mat, the number applied to every channel
    Mat op Mat        = Mat, both of identical size and channels

PREFIX FORMS
  -x    Same as 0 - x
  ^n    Same as -n; n must not be negative

RANGE OPERATORS
  ..  :
    Builds a range from numbers; either end may be left out.

COMPARISON OPERATORS
  ==  !=  <  >  <=  >=

  Type behavior:
    Number op Number  = Boolean
    Mat op Number     = Mask (255 where every channel matches, else 0)
    Mat op Mat        = Mask, both of identical size and channels

ASSIGNMENT
  name = expression
    Stores the value and returns it. Later expressions see the new value.

PRECEDENCE (tightest first)
  1. Calls and method calls
  2. Prefix ^
  3. Ranges
  4. Power
  5. * / %
  6. + -
  7. Comparisons
  8. Assignment

  Operators of one level group from the left:
    2 ** 3 ** 2       (2 ** 3) ** 2 = 64
    1 + 2..5          1 + (2..5)
"

/-- The built-in functions. -/
def functionsPage : String :=
"FUNCTIONS - Built-in Library

Function names ignore case. Every function returns the first error among its
arguments unchanged.

NUMERIC
  Abs(value)                      Absolute value of a number or every element
  Clamp(value, lower, upper)      Number bounds, or Mat bounds of the same shape
  Min(values...)                  Smallest number, element-wise Mat minimum,
                                  or the smallest element of a single Mat
  Max(values...)                  Largest, as Min
  NormalizeTo(mat, max)           Scales so the largest element equals max

CHANNELS
  GetChannelCount(mat)            Number of channels
  GetChannel(mat, channel)        One channel as a 1-channel Mat (0-based)
  ReplaceChannel(mat, channel, replacement)
                                  Replaces one channel with a 1-channel Mat
  CombineChannels(mats...)        Stacks channels of equally sized Mats (max 4)
  GetRGB(mat)                     First three channels of a 3- or 4-channel Mat
  RGBReplace(mat, rgb)            Replaces the colour of a 4-channel Mat
  AlphaReplace(mat, alpha)        Replaces the alpha of a 4-channel Mat

CONVERSION
  ToImage(mat)                    Rounds to 0..255; tags Gray, BGR or BGRA
  ToMatrix(mat)                   Retags as a plain Matrix

INDEXING
  SubMat(mat, y, x, channel)      Numbers on every axis return one element;
                                  otherwise returns a sub-matrix. x and channel
                                  default to the whole axis. A range end past
                                  the axis stops at the last index.
"

/-- Values and the kinds of matrices. -/
def typesPage : String :=
"TYPES - Values and Matrix Tags

VALUE TYPES
  Number        Double-precision number
  Mat           Matrix of rows x cols x channels numbers with a tag
  Boolean       Result of comparing numbers
  Range         Index range used by SubMat
  Error         Failure message

MATRIX TAGS
  Matrix        Plain numbers, 1 to 4 channels
  UnknownImage  Image of unknown colour space, 1 to 4 channels
  BGR RGB HSV   3 channels
  BGRA RGBA HSVA
                4 channels
  GrayA         2 channels
  Gray          1 channel
  Mask          1 channel of 0 or 255, produced by comparisons

  Arithmetic results are plain Matrix values. ToImage turns them back into
  images.

PASSING VARIABLES
  ptms eval 'x * 2' --var x=3
  ptms eval 'x.GetChannel(0)' --var 'x=\x7b\"type\": \"BGR\", \"rows\": 1, \"cols\": 1, \"data\": [1, 2, 3]\x7d'
  ptms eval 'x + 1' --var 'x=[[1, 2], [3, 4]]'
"

/-- How errors are reported. -/
def errorsPage : String :=
"ERRORS - Reporting and Propagation

Errors are values. An operator or function that receives an error returns it
unchanged, checking the left operand before the right, so the first failure
in an expression becomes its result.

SYNTAX ERRORS
    Unclosed or mismatched brackets, operators without operands and
    unsupported characters ('!', '&', '|').

    Example:
      (1 + 2            the bracket '(' is not closed properly
      [1 + 2)           starts with '[' but ends with ')' instead of ']'
      2 * - x           '*' sees the invalid token to the right '-'

TYPE ERRORS
    Operands or arguments of an unsupported type. The message lists the
    accepted overloads and the argument that did not fit.

SHAPE ERRORS
    Two matrices of different size or channel count in one operation.

UNKNOWN NAMES
    The name 'y' is not a valid value
    The name 'f' is not a valid function
"

/-- The page of a category. -/
def Category.page : Category → String
  | language => languagePage
  | operators => operatorsPage
  | functions => functionsPage
  | types => typesPage
  | errors => errorsPage

/-- The page of the category with a given name. -/
def page (name : String) : Except Failure String :=
  match Category.ofName? name with
  | some category => .ok category.page
  | none => .error (.unknownCategory name)

end Manual
end PixelCalc
