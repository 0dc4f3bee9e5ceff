import FeatureSieve.Atlas.Basic

/-! # Help texts

What is shown beside a picked operator, layer or field, and the general explanation
while nothing is picked.
-/

namespace FeatureSieve

def Operator.help : Operator → String
  | equals =>
    "Equal To: compares a single input to the selected field and only matches features whose " ++
    "value is exactly the input. E.g. SE-SEGH only returns the polygon of SE-SEGH."
  | oneOf =>
    "In: compares several inputs separated by commas to the selected field and matches features " ++
    "whose value exactly equals any of them. E.g. SE-BUCKNG,SE-BUCKNG-02 returns the polygons of " ++
    "both SE-BUCKNG and SE-BUCKNG-02."
  | greaterThan =>
    "Greater Than: compares a single number to the selected field and only matches features whose " ++
    "value is greater than the input. E.g. 400 only returns features with a value above 400."
  | lessThan =>
    "Less Than: compares a single number to the selected field and only matches features whose " ++
    "value is less than the input. E.g. 400 only returns features with a value below 400."
  | between =>
    "Between: takes two numbers separated by a comma and only matches features whose value is " ++
    "greater than the first and less than the second. E.g. 100,400 returns features with a value " ++
    "between 100 and 400, excluding 100 and 400 themselves."

/-- A heading, with the details below it if there are any. -/
def headed (heading details : String) : String :=
  if details.isEmpty then heading else s!"{heading}\n\n{details}"

def Layer.help (layer : Layer) : String := headed layer.name layer.description

def Field.helpText (field : Field) : String := headed field.title field.help

namespace Help

def operators : String :=
  "An operator is a simple way of summarising a comparison. Here it compares your input against " ++
  "the values of the features (polygons/lines/points) in a layer. For example 'Equal To' compares " ++
  "your input to each feature and is only true when they match completely."

def layers : String :=
  "A layer is a map element, selected from the layer menu, containing polygons, lines or points. " ++
  "For example the Current Communities layer is a polygon layer."

def fields : String :=
  "A field is a property of a layer that holds a value for each polygon/line/point, like a column " ++
  "in a spreadsheet. For example the Name field holds the name of each feature."

def ofOperator (operator : Option Operator) : String := (operator.map Operator.help).getD operators

def ofLayer (layer : Option Layer) : String := (layer.map Layer.help).getD layers

def ofField (field : Option Field) : String := (field.map Field.helpText).getD fields

end Help

end FeatureSieve
