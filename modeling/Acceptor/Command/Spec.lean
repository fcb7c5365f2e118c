namespace Acceptor

inductive Verb
  | changeFolder
  | clear
  | loadExample
  | addStates
  | setStart
  | setAccepting
  | addEdge
  | configure
  | run
  | save
  | draw
  | quit
  | source
  | help
  deriving DecidableEq, Repr

/-- An option that takes no value. A command takes one of its exclusive flags at most. -/
structure Flag where
  name : String
  help : String
  exclusive : Bool := false
  deriving DecidableEq, Repr

inductive Arity
  | one
  | optional
  | many
  deriving DecidableEq, Repr

structure Operand where
  name : String
  arity : Arity
  numeric : Bool := false
  help : String := ""
  deriving DecidableEq, Repr

structure Spec where
  name : String
  verb : Verb
  summary : String
  flags : List Flag := []
  operands : List Operand := []
  deriving DecidableEq, Repr

namespace Spec

def drawSummary : String :=
  "Creates a DOT file with the automaton. If invoked as \"dotty\" and with no arguments, the graph " ++
    "is laid out and showed in a graphical window."

def all : List Spec := [
  { name := "cd", verb := .changeFolder
    summary := "Change current directory."
    operands := [{ name := "DIR", arity := .one, help := "New current directory" }] },
  { name := "new", verb := .clear
    summary := "Removes all states from the automaton." },
  { name := "example", verb := .loadExample
    summary := "Replaces the automaton with one that accepts strings starting with \"a\" or \"b\"." },
  { name := "state", verb := .addStates
    summary := "Adds one or more states to the automaton. States are numbered from 0 in the order " ++
      "they are created."
    flags := [
      { name := "--accepting", help := "Make the new states accepting." },
      { name := "--start", help := "Make the (first) new state the initial state." }]
    operands := [
      { name := "COUNT", arity := .optional, numeric := true, help := "Number of states to add" }] },
  { name := "start", verb := .setStart
    summary := "Sets the initial state of the automaton."
    operands := [
      { name := "STATE", arity := .one, numeric := true, help := "The new initial state" }] },
  { name := "accept", verb := .setAccepting
    summary := "Makes states accepting, or non-accepting with --no."
    flags := [{ name := "--no", help := "Make the states non-accepting." }]
    operands := [
      { name := "STATE", arity := .many, numeric := true, help := "The states to be changed" }] },
  { name := "edge", verb := .addEdge
    summary := "Creates a new transition. Transitions out of a state are tried in the order they " ++
      "were created."
    operands := [
      { name := "SOURCE", arity := .one, numeric := true,
        help := "Source state for the new transition" },
      { name := "DEST", arity := .one, numeric := true,
        help := "Target state for the new transition" },
      { name := "CLASS", arity := .one, help := "Characters that trigger the transition" }] },
  { name := "stack", verb := .configure
    summary := "Configures the stack that records the states visited by \"match\". Without " ++
      "arguments, prints the current configuration."
    flags := [
      { name := "--strict", help := "Fail the match if the stack overflows.", exclusive := true },
      { name := "--lenient", help := "Drop states that do not fit in the stack.",
        exclusive := true }]
    operands := [
      { name := "CAPACITY", arity := .optional, numeric := true,
        help := "Maximum number of recorded states" }] },
  { name := "match", verb := .run
    summary := "Runs the automaton on each string and prints whether it matches."
    flags := [{ name := "--trace", help := "Print the final state and the recorded path." }]
    operands := [{ name := "STRING", arity := .many, help := "The strings to be matched" }] },
  { name := "save", verb := .save
    summary := "Creates a command file with the automaton."
    operands := [{ name := "FILE", arity := .optional }] },
  { name := "output", verb := .draw
    summary := drawSummary
    operands := [{ name := "FILE", arity := .optional }] },
  { name := "dotty", verb := .draw
    summary := drawSummary
    operands := [{ name := "FILE", arity := .optional }] },
  { name := "q", verb := .quit, summary := "Exits dfamatch." },
  { name := "quit", verb := .quit, summary := "Exits dfamatch." },
  { name := "source", verb := .source
    summary := "Processes the commands in a file."
    operands := [{ name := "FILE", arity := .many }] },
  { name := ".", verb := .source
    summary := "Processes the commands in a file."
    operands := [{ name := "FILE", arity := .many }] },
  { name := "help", verb := .help
    summary := "Prints the list of commands, or the syntax of a command."
    operands := [
      { name := "COMMAND", arity := .optional, help := "Show help for given command." }] }]

def find? (name : String) : Option Spec := all.find? fun s => s.name == name

def names : List String := all.map Spec.name

def choices : String := "\x7b" ++ String.intercalate "," names ++ "\x7d"

end Spec

end Acceptor
