import GrammarMachine.Main
import GrammarMachine.Workbench.Session
import GrammarMachine.Proofs.Repetition.Attribute
import GrammarMachine.Proofs.Operators.Roundtrip
import GrammarMachine.Proofs.Operators.Operands
import GrammarMachine.Proofs.Scanning.Enumeration
import GrammarMachine.Proofs.Nesting.Transparency
import GrammarMachine.Proofs.Regex.Anchored
import GrammarMachine.Proofs.Calculator.Acceptance
import GrammarMachine.Proofs.Locality.Suffix
import GrammarMachine.Proofs.Safety.Builders
import GrammarMachine.Proofs.Forwards.WriteOnce
import GrammarMachine.Proofs.Steering.Lockstep
import GrammarMachine.Proofs.Repetition.Accumulation
import GrammarMachine.Proofs.Operators.Longest
import GrammarMachine.Proofs.Spacing.Grammars
import GrammarMachine.Proofs.Repetition.EmptyIterations
import GrammarMachine.Proofs.Keywords.Search
import GrammarMachine.Proofs.Operators.Reordering
import GrammarMachine.Proofs.Settlement.Once
import GrammarMachine.Proofs.Keywords.WordEnds
import GrammarMachine.Proofs.Inheritance.Dropping
import GrammarMachine.Proofs.Inheritance.Lasting
import GrammarMachine.Proofs.Repetition.WholeText
import GrammarMachine.Proofs.Forwards.Parentheses
import GrammarMachine.Proofs.Decimal.Literals
import GrammarMachine.Proofs.Safety.Offsets
import GrammarMachine.Proofs.Termination.Iterations
