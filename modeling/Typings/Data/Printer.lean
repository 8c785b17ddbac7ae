import Typings.Data
import Typings.Text.Quoted

/-! # Writing data

Data in the notation of JSON, without blank space. Doubles have their shortest text; the ones that
are no numbers are written as the reader takes them.
-/

namespace Typings.Data

def doubleText : Double → String
  | .infinite negative => if negative then "-Infinity" else "Infinity"
  | .nan => "NaN"
  | x => x.text

mutual

def chars : Data → List Char
  | .null => "null".toList
  | .bool true => "true".toList
  | .bool false => "false".toList
  | .int n => (toString n).toList
  | .double x => (doubleText x).toList
  | .text s => (Text.quote s).toList
  | .list [] => ['[', ']']
  | .list (v :: vs) => '[' :: chars v ++ itemChars vs
  | .object [] => ['{', '}']
  | .object ((k, v) :: ms) => '{' :: (Text.quote k).toList ++ ':' :: chars v ++ memberChars ms

def itemChars : List Data → List Char
  | [] => [']']
  | v :: vs => ',' :: chars v ++ itemChars vs

def memberChars : List (String × Data) → List Char
  | [] => ['}']
  | (k, v) :: ms => ',' :: (Text.quote k).toList ++ ':' :: chars v ++ memberChars ms

end

def write (v : Data) : String := String.ofList (chars v)

end Typings.Data
