import Labyrinth.Binary
import Labyrinth.Binary.LittleEndian
import Labyrinth.Console.Arguments
import Labyrinth.Console.Commands
import Labyrinth.Console.Desk
import Labyrinth.Console.Host
import Labyrinth.Console.Path
import Labyrinth.Console.Settings
import Labyrinth.Console.SettingsFile
import Labyrinth.Coord
import Labyrinth.Counter
import Labyrinth.Direction
import Labyrinth.Engine
import Labyrinth.Game
import Labyrinth.Game.Level
import Labyrinth.Grid
import Labyrinth.Language.Braced.Grammar
import Labyrinth.Language.Braced.Printer
import Labyrinth.Language.Braced.Tokens
import Labyrinth.Language.Dialect
import Labyrinth.Language.Indented.Grammar
import Labyrinth.Language.Indented.Tokens
import Labyrinth.Language.Parser
import Labyrinth.Language.Read
import Labyrinth.Language.Reader
import Labyrinth.Language.SyntaxError
import Labyrinth.Language.Template
import Labyrinth.Language.Token
import Labyrinth.Language.Tree
import Labyrinth.Machine
import Labyrinth.Machine.Builtins
import Labyrinth.Machine.Code
import Labyrinth.Machine.Collections
import Labyrinth.Machine.Display
import Labyrinth.Machine.Equality
import Labyrinth.Machine.Execute
import Labyrinth.Machine.Fault
import Labyrinth.Machine.Key
import Labyrinth.Machine.Lowering
import Labyrinth.Machine.Methods
import Labyrinth.Machine.Operators
import Labyrinth.Machine.State
import Labyrinth.Machine.Value
import Labyrinth.Main
import Labyrinth.Maze.Layout
import Labyrinth.Maze.Source
import Labyrinth.Random.Digest
import Labyrinth.Random.Keystream
import Labyrinth.RunResult
import Labyrinth.Text.Alphabetic
import Labyrinth.Text.Blank
import Labyrinth.Text.CharRange
import Labyrinth.Text.Decimal
import Labyrinth.Text.Lines
import Labyrinth.Text.Numeric
import Labyrinth.Text.Search
import Labyrinth.World
import Labyrinth.Proofs.Language.WellFormed
import Labyrinth.Proofs.Language.Indented
import Labyrinth.Proofs.Language.Braced
import Labyrinth.Proofs.Language.Bound
import Labyrinth.Proofs.Machine.Operations
import Labyrinth.Proofs.Machine.Shape
import Labyrinth.Proofs.Machine.Layout
import Labyrinth.Proofs.Machine.ProgramLayout
import Labyrinth.Proofs.Machine.Fits
import Labyrinth.Proofs.Machine.Safety
import Labyrinth.Proofs.Machine.Runs
import Labyrinth.Proofs.Language.Redeclared
import Labyrinth.Proofs.Machine.Constants
import Labyrinth.Proofs.Machine.Rebinding
import Labyrinth.Proofs.Machine.Observations
import Labyrinth.Proofs.Machine.Evaluation
import Labyrinth.Proofs.Machine.Steps
import Labyrinth.Proofs.Machine.Contexts
import Labyrinth.Proofs.Machine.Simulation
import Labyrinth.Proofs.Machine.Execution
import Labyrinth.Proofs.Machine.Calls
import Labyrinth.Proofs.Machine.Correctness
import Labyrinth.Proofs.Language.Printable
import Labyrinth.Proofs.Walks
import Labyrinth.Proofs.Distances
import Labyrinth.Proofs.Verdicts
import Labyrinth.Proofs.Maze.Growth
import Labyrinth.Proofs.Maze.Carving
import Labyrinth.Proofs.Maze.Generated
import Labyrinth.Proofs.Language.Spelling
import Labyrinth.Proofs.Language.PrintedTokens
import Labyrinth.Proofs.Language.Leading
import Labyrinth.Proofs.Language.Levels
import Labyrinth.Proofs.Language.Rereading
import Labyrinth.Proofs.Language.RereadingStatements
import Labyrinth.Proofs.Language.Comments
import Labyrinth.Proofs.Language.RoundTrip
import Labyrinth.Proofs.Machine.Normalization
import Labyrinth.Proofs.Machine.Reprinting
import Labyrinth.Proofs.Trails
import Labyrinth.Proofs.Machine.Footprints
import Labyrinth.Proofs.Machine.Limits
import Labyrinth.Proofs.Machine.Framing
import Labyrinth.Proofs.Resumptions
import Labyrinth.Proofs.Games
import Labyrinth.Proofs.Games.Advances
import Labyrinth.Proofs.Games.Ticks
import Labyrinth.Proofs.Games.Submissions
import Labyrinth.Proofs.Games.Stories
import Labyrinth.Proofs.Games.Mazes
import Labyrinth.Proofs.Games.Brackets
import Labyrinth.Proofs.Restarts
import Labyrinth.Proofs.Language.TreeEquality
import Labyrinth.Proofs.Language.Scanning
import Labyrinth.Proofs.Machine.Heaps
import Labyrinth.Proofs.Machine.Ensures
import Labyrinth.Proofs.Machine.Judgements
import Labyrinth.Proofs.BreadthFirst.Ways
import Labyrinth.Proofs.BreadthFirst.Cells
import Labyrinth.Proofs.BreadthFirst.Text
import Labyrinth.Proofs.BreadthFirst.Neighbours
import Labyrinth.Proofs.BreadthFirst.Routes
import Labyrinth.Proofs.BreadthFirst.Searching
import Labyrinth.Proofs.BreadthFirst.Solving
import Labyrinth.Proofs.Language.Heights
import Labyrinth.Proofs.Language.IndentedHeights
import Labyrinth.Proofs.Language.BracedHeights
import Labyrinth.Proofs.Language.Nesting
import Labyrinth.Proofs.WallFollower.Rotations
import Labyrinth.Proofs.WallFollower.Touring
import Labyrinth.Proofs.WallFollower.Text
import Labyrinth.Proofs.WallFollower.Walking
import Labyrinth.Proofs.WallFollower.Solving
import Labyrinth.Proofs.Machine.Agreement
import Labyrinth.Proofs.Machine.Raising
import Labyrinth.Proofs.Templates
import Labyrinth.Proofs.Language.Locality
import Labyrinth.Proofs.Language.IndentedLocality
import Labyrinth.Proofs.Language.BracedLocality
import Labyrinth.Proofs.Language.Following
import Labyrinth.Proofs.Language.BracedFollowing
import Labyrinth.Proofs.Language.LongerSources
import Labyrinth.Proofs.Language.Continuations
import Labyrinth.Proofs.Language.IndentedFollowing
import Labyrinth.Proofs.Language.Concatenation
import Labyrinth.Proofs.Language.Relabeling
import Labyrinth.Proofs.Language.IndentedRelabeling
import Labyrinth.Proofs.Language.BracedRelabeling
import Labyrinth.Proofs.Language.Positions
import Labyrinth.Proofs.Language.LineEnds
import Labyrinth.Proofs.Language.Outcomes
import Labyrinth.Proofs.Language.CarriageReturns
import Labyrinth.Proofs.Utf8
import Labyrinth.Proofs.Machine.Equality
import Labyrinth.Proofs.Machine.Keys
import Labyrinth.Proofs.Machine.KeyOrder
import Labyrinth.Proofs.Machine.Invariants
import Labyrinth.Proofs.Machine.Contents
import Labyrinth.Proofs.Machine.Hashing
import Labyrinth.Proofs.Machine.Refinement
import Labyrinth.Proofs.Language.LogicalLines
import Labyrinth.Proofs.Language.Indentation
import Labyrinth.Proofs.Language.Remarks
import Labyrinth.Proofs.Language.TokenLayout
import Labyrinth.Proofs.Language.Quotation
import Labyrinth.Proofs.Machine.Integers
import Labyrinth.Proofs.Machine.Rendering
import Labyrinth.Proofs.Machine.Pauses
import Labyrinth.Proofs.Machine.Positions
import Labyrinth.Proofs.Machine.Segments
import Labyrinth.Proofs.Machine.Ranges
import Labyrinth.Proofs.Occurrences
import Labyrinth.Proofs.Machine.Sequences
import Labyrinth.Proofs.Grids
import Labyrinth.Proofs.Drawings
import Labyrinth.Proofs.Queries
import Labyrinth.Proofs.Binary
import Labyrinth.Proofs.Maze.Turns
import Labyrinth.Proofs.Console.Rehearsals
