import CardCrucible.Outcome
import CardCrucible.Arrangement
import CardCrucible.Ladder
import CardCrucible.Dictionary
import CardCrucible.Card
import CardCrucible.Deck
import CardCrucible.DeckShuffles
import CardCrucible.DeckBuilders
import CardCrucible.Picking
import CardCrucible.DrawLoops
import CardCrucible.DeckAccounts
import CardCrucible.DeckDraws
import CardCrucible.Player
import CardCrucible.WarModel
import CardCrucible.WarState
import CardCrucible.WarTurn
import CardCrucible.Comparisons
import CardCrucible.WarRuns
import CardCrucible.Spending
import CardCrucible.Dealing
import CardCrucible.Rounds
import CardCrucible.GameStatus
import CardCrucible.RoundLaws
import CardCrucible.Conservation
import CardCrucible.Strength
import CardCrucible.RoundStrength
import CardCrucible.Games
import CardCrucible.RoundRobin
import CardCrucible.WarLaw
import CardCrucible.Payout
import CardCrucible.Lifecycle
import CardCrucible.Draws
import CardCrucible.LastPlayed
import CardCrucible.Safety
import CardCrucible.Cycles
import CardCrucible.Standings
import CardCrucible.Lockstep
import CardCrucible.Renaming
import CardCrucible.Twins
import CardCrucible.Orders
import CardCrucible.Choices
import CardCrucible.Snapshots
import CardCrucible.Verdicts
import CardCrucible.Relabelling
import CardCrucible.Suits
import CardCrucible.Runs
import CardCrucible.Sessions
import CardCrucible.Ledger
import CardCrucible.Contract
import CardCrucible.Walkover
import CardCrucible.Deals
import CardCrucible.Climb
import CardCrucible.Costs
import CardCrucible.Rules
import CardCrucible.Codes
import CardCrucible.Faces
import CardCrucible.Transcript
import CardCrucible.Equality
import CardCrucible.Identity
import CardCrucible.Initializers
import CardCrucible.Anonymity
