import Duel.Audience
import Duel.Clock.Script
import Duel.Cue.Reactor
import Duel.Main
import Duel.Status.Clauses
import Duel.View.Invalid
import Duel.View.Match
import Duel.Proofs.Work
import Duel.Proofs.Number
import Duel.Proofs.Text
import Duel.Proofs.Ledger
import Duel.Proofs.Stacks.Changes
import Duel.Proofs.Stacks.Rules
import Duel.Proofs.Defense
import Duel.Proofs.Match.Board
import Duel.Proofs.Match.Step
import Duel.Proofs.Match.Turns
import Duel.Proofs.Attack
import Duel.Proofs.Match.History
import Duel.Proofs.Match.Life
import Duel.Proofs.Match.Buffs
import Duel.Proofs.Match.Grants
import Duel.Proofs.Match.Score
import Duel.Proofs.Match.Knockout
import Duel.Proofs.Clock.Firing
import Duel.Proofs.Clock.Timers
import Duel.Proofs.Clock.Punctual
import Duel.Proofs.Cue.Phases
import Duel.Proofs.Cue.Alike
import Duel.Proofs.Cue.Inner
import Duel.Proofs.Cue.Starting
import Duel.Proofs.Cue.Settled
import Duel.Proofs.Cue.Minutes
import Duel.Proofs.Cue.Lasting
import Duel.Proofs.Cue.Pending
import Duel.Proofs.Cue.Choosing
import Duel.Proofs.Cue.Account
import Duel.Proofs.Stacks.Bounds
import Duel.Proofs.Match.Run
import Duel.Proofs.Match.Bounds
import Duel.Proofs.Cue.Merging
import Duel.Proofs.Cue.Restarting
import Duel.Proofs.Cue.Diary
import Duel.Proofs.Cue.Timeline
import Duel.Proofs.Match.Records
import Duel.Proofs.Match.Halting
import Duel.Proofs.Spend.Totals
import Duel.Proofs.Stacks.Spending
import Duel.Proofs.Defense.Requests
import Duel.Proofs.Defense.Order
import Duel.Proofs.Match.HitPoints
import Duel.Proofs.Buff.Course
import Duel.Proofs.Match.Outlays
import Duel.Proofs.Status.Definitions
import Duel.Proofs.Stacks.Modifying
import Duel.Proofs.Status.Entries
import Duel.Proofs.Stacks.Repeating
import Duel.Proofs.Attack.Reporting
import Duel.Proofs.Double.Bits
import Duel.Proofs.Double.Rounding
import Duel.Proofs.Double.Shortest
import Duel.Proofs.Json.Numbers
import Duel.Proofs.Json.Doubles
import Duel.Proofs.Json.Tables
import Duel.Proofs.Settings.Reading
import Duel.Proofs.Content.Writing
import Duel.Proofs.Settings.Restoring
import Duel.Proofs.Content.Checking
import Duel.Proofs.Content.Loading
import Duel.Proofs.Content.Packs
import Duel.Proofs.Cue.Stirring
import Duel.Proofs.Cue.Pauses
import Duel.Proofs.Match.Composed
import Duel.Proofs.Match.Course
import Duel.Proofs.Match.Splitting
import Duel.Proofs.Match.Pauses
import Duel.Proofs.Audience.Membership
import Duel.Proofs.Audience.Delivery
import Duel.Proofs.Clock.Chronicle
import Duel.Proofs.Clock.Keeping
import Duel.Proofs.Clock.Nested
import Duel.Proofs.Stacks.Ticking
import Duel.Proofs.Defense.Reactions
import Duel.Proofs.Attack.Shielding
import Duel.Proofs.Spend.Joining
import Duel.Proofs.Double.HalfUp
import Duel.Proofs.Dice.Holding
import Duel.Proofs.Stacks.Wearing
import Duel.Proofs.Status.Described
import Duel.Proofs.Formula.Linting
import Duel.Proofs.Dice.Shuffling
import Duel.Proofs.Stacks.Carrying
import Duel.Proofs.Cue.Keys
